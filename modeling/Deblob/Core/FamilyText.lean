import Deblob.Core.Identity

/-!
# The texts of families

A family is named by a UUID in one of four forms. The first characters of a text show its form, and
with it how long the text is, so no name of a family is the beginning of another one.
-/

namespace Deblob.Core

def isHexDigit (char : Char) : Bool := char ∈ "0123456789abcdefABCDEF".toList

def isHyphenated (body : List Char) : Bool :=
  body.length = 36 && body.zipIdx.all fun (char, place) ↦
    if place ∈ [8, 13, 18, 23] then char = '-' else isHexDigit char

def isBraced : List Char → Bool
  | '\x7b' :: rest => rest.getLast? = some '\x7d' && isHyphenated rest.dropLast
  | _ => false

/-- The texts `Uuid::parse_str` takes. -/
def isUuid (body : List Char) : Bool :=
  (body.length = 32 && body.all isHexDigit) || isHyphenated body || isBraced body ||
    ("urn:uuid:".toList.isPrefixOf body && isHyphenated (body.drop 9))

def FamilyId.parse (text : String) : Option FamilyId :=
  match stripPrefix "fam_" text with
  | none => none
  | some body => if isUuid body.toList then some ⟨text⟩ else none

/-- The identifier is minted or was parsed. -/
def FamilyId.Parsed (family : FamilyId) : Prop := FamilyId.parse family.asStr = some family

instance : DecidablePred FamilyId.Parsed := fun _ ↦ inferInstanceAs (Decidable (_ = _))

/-- The length of a form, read from its first nine characters. -/
def uuidLength (body : List Char) : ℕ :=
  if body.head? = some '\x7b' then 38
  else if body.head? = some 'u' then 45
  else if body[8]? = some '-' then 36
  else 32

theorem getElem?_of_isHyphenated {body : List Char} (hbody : isHyphenated body = true) :
    body.length = 36 ∧ body[8]? = some '-' ∧ ∃ first, body.head? = some first ∧
      isHexDigit first = true := by
  simp only [isHyphenated, Bool.and_eq_true, decide_eq_true_eq, List.all_eq_true] at hbody
  rcases hbody with ⟨hlength, hall⟩
  have hplace (place : ℕ) (hplace : place < body.length) := hall (body[place], place)
    (List.mem_zipIdx_iff_getElem?.mpr (List.getElem?_eq_getElem hplace))
  have hhyphen := hplace 8 (by omega)
  have hfirst := hplace 0 (by omega)
  refine ⟨hlength, ?_, body[0], ?_, by simpa using hfirst⟩
  · rw [List.getElem?_eq_getElem (by omega)]
    simpa using hhyphen
  · rw [List.head?_eq_getElem?, List.getElem?_eq_getElem (by omega)]

theorem ne_of_isHexDigit {char : Char} (hchar : isHexDigit char = true) :
    char ≠ '\x7b' ∧ char ≠ 'u' ∧ char ≠ '-' := by
  refine ⟨?_, ?_, ?_⟩ <;> rintro rfl <;> revert hchar <;> decide

theorem uuidLength_of_isHyphenated {body : List Char} (hbody : isHyphenated body = true) :
    uuidLength body = 36 := by
  rcases getElem?_of_isHyphenated hbody with ⟨_, hhyphen, first, hfirst, hhex⟩
  have hne := ne_of_isHexDigit hhex
  simp [uuidLength, hfirst, hhyphen, hne.1, hne.2.1]

theorem length_of_isUuid {body : List Char} (hbody : isUuid body = true) :
    body.length = uuidLength body ∧ 32 ≤ body.length := by
  simp only [isUuid, Bool.or_eq_true, Bool.and_eq_true, decide_eq_true_eq, List.all_eq_true]
    at hbody
  rcases hbody with ((⟨hlength, hhex⟩ | hhyphenated) | hbraced) | ⟨hurn, hhyphenated⟩
  · have hne (place : ℕ) (hplace : place < body.length) :=
      ne_of_isHexDigit (hhex body[place] (List.getElem_mem hplace))
    have hfirst := hne 0 (by omega)
    have hninth := hne 8 (by omega)
    refine ⟨?_, by omega⟩
    rw [uuidLength, List.head?_eq_getElem?, List.getElem?_eq_getElem (by omega),
      List.getElem?_eq_getElem (by omega)]
    simp [hfirst, hninth, hlength]
  · have hlength := (getElem?_of_isHyphenated hhyphenated).1
    exact ⟨hlength.trans (uuidLength_of_isHyphenated hhyphenated).symm, by omega⟩
  · unfold isBraced at hbraced
    split at hbraced
    · rename_i rest
      rw [Bool.and_eq_true] at hbraced
      have hlength := (getElem?_of_isHyphenated hbraced.2).1
      rw [List.length_dropLast] at hlength
      rw [List.length_cons]
      refine ⟨?_, by omega⟩
      rw [uuidLength, if_pos List.head?_cons]
      omega
    · cases hbraced
  · rcases List.isPrefixOf_iff_prefix.mp hurn with ⟨rest, rfl⟩
    have hlength := (getElem?_of_isHyphenated hhyphenated).1
    rw [List.length_drop, List.length_append] at hlength
    rw [List.length_append]
    refine ⟨?_, by omega⟩
    have hhead : uuidLength ("urn:uuid:".toList ++ rest) = 45 := by
      rw [uuidLength, if_neg (by simp), if_pos (by simp)]
    rw [hhead]
    have hnine : "urn:uuid:".toList.length = 9 := by decide
    omega

/-- No form is the beginning of another one. -/
theorem eq_of_prefix_of_isUuid {left right : List Char} (hleft : isUuid left = true)
    (hright : isUuid right = true) (hinitial : left <+: right) : left = right := by
  have hlong := length_of_isUuid hleft
  rcases hinitial with ⟨rest, rfl⟩
  have hsame : uuidLength (left ++ rest) = uuidLength left := by
    rw [uuidLength, uuidLength, List.getElem?_append_left (by omega),
      List.head?_append_of_ne_nil left (List.length_pos_iff.mp (by omega))]
  have hlength : left.length = (left ++ rest).length := by
    rw [hlong.1, (length_of_isUuid hright).1, hsame]
  rw [List.length_append] at hlength
  have hrest : rest = [] := List.eq_nil_of_length_eq_zero (by omega)
  rw [hrest, List.append_nil]

theorem FamilyId.Parsed.exists_body {family : FamilyId} (hparsed : family.Parsed) :
    ∃ body, isUuid body = true ∧ family.asStr.toList = "fam_".toList ++ body := by
  unfold Parsed FamilyId.parse at hparsed
  split at hparsed
  · cases hparsed
  · rename_i body hstrip
    split_ifs at hparsed with huuid
    refine ⟨body.toList, huuid, ?_⟩
    rw [eq_append_of_stripPrefix hstrip, String.toList_append]

/-- The names of families are told apart whatever follows them. -/
theorem FamilyId.Parsed.eq_of_prefix {left right : FamilyId} (hleft : left.Parsed)
    (hright : right.Parsed) (hinitial : left.asStr.toList <+: right.asStr.toList) :
    left = right := by
  rcases hleft.exists_body with ⟨body, hbody, htext⟩
  rcases hright.exists_body with ⟨other, hother, hotherText⟩
  rw [htext, hotherText, List.prefix_append_right_inj] at hinitial
  have heq := eq_of_prefix_of_isUuid hbody hother hinitial
  rw [heq, ← hotherText, String.toList_inj] at htext
  exact congrArg FamilyId.mk htext

end Deblob.Core
