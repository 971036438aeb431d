import Mathlib.Data.List.Infix
import Mathlib.Data.Nat.Digits.Defs
import Mathlib.Data.Rat.Defs

/-!
# Name and value detectors

A field name is sensitive when its folded form contains one of the listed words. A scalar is a
secret when a pattern matches it, when it has a long run of high entropy, or when it has a valid
card number, and it is personal data when the mail pattern matches. The patterns, the entropy of a
run and the tables of Unicode are parameters.
-/

namespace Deblob.Dlp

inductive ScalarClass where
  | secret
  | pii
  | clean
deriving DecidableEq, Repr

/-- Compatibility normalization, lower case and the class of alphanumeric characters. -/
structure Folding where
  nfkc : String → List Char
  toLowercase : Char → List Char
  isAlphanumeric : Char → Bool

/-- The tables of ASCII. -/
def Folding.ascii : Folding where
  nfkc := String.toList
  toLowercase char := [char.toLower]
  isAlphanumeric := Char.isAlphanum

structure Detectors where
  folding : Folding
  /-- Whether one of the secret patterns matches somewhere in a text. -/
  secretPatterns : String → Bool
  /-- Whether the mail pattern matches somewhere in a text. -/
  email : String → Bool
  /-- Whether the entropy of a run, in bits for each byte, is at least a bound. -/
  shannonAtLeast : List Char → ℚ → Bool

/-! ## Sensitive names -/

def sensitiveNameSubstrings : List String :=
  ["password", "passwd", "passphrase", "apikey", "apitoken", "accesstoken", "refreshtoken",
    "idtoken", "clientsecret", "privatekey", "signingkey", "encryptionkey", "secretkey",
    "connectionstring", "webhooksecret", "sessionid", "sessiontoken", "setcookie", "cookie",
    "credential", "mnemonic", "recoverycode", "passport", "taxid", "bankaccount", "routingnumber",
    "sortcode", "cvv", "iban", "pesel", "ssn", "oauthtoken", "bearertoken", "authtoken",
    "clientsecret", "pwd", "secret"]

def normalizeName (folding : Folding) (name : String) : List Char :=
  ((folding.nfkc name).flatMap folding.toLowercase).filter folding.isAlphanumeric

def sensitiveFieldName (folding : Folding) (name : String) : Bool :=
  let norm := normalizeName folding name
  if norm.isEmpty then false
  else sensitiveNameSubstrings.any fun word ↦ decide (word.toList <:+: norm)

/-! ## Runs of characters -/

def isAsciiHexdigit (char : Char) : Bool :=
  char.isDigit || ('a' ≤ char && char ≤ 'f') || ('A' ≤ char && char ≤ 'F')

def isB64 (char : Char) : Bool := char.isAlphanum || char = '+' || char = '/'

/-- The maximal runs of a class of characters, after a run that is being read. -/
def runsOf (keep : Char → Bool) (run : List Char) : List Char → List (List Char)
  | [] => [run]
  | char :: chars =>
    if keep char then runsOf keep (run ++ [char]) chars else run :: runsOf keep [] chars

def hasHighEntropyBlob (detectors : Detectors) (text : String) : Bool :=
  [(isAsciiHexdigit, 32, (5 / 2 : ℚ)), (isB64, 40, (7 / 2 : ℚ))].any fun (keep, min, entropy) ↦
    (runsOf keep [] text.toList).any fun run ↦
      decide (min ≤ run.length) && detectors.shannonAtLeast run entropy

/-- `luhn_ok`: every second digit from the end is doubled. -/
def luhnOk (digits : List ℕ) : Bool :=
  let (sum, _) := digits.reverse.foldl (fun (sum, alt) digit ↦
    (sum + if alt then (if 9 < digit * 2 then digit * 2 - 9 else digit * 2) else digit, !alt))
    (0, false)
  sum % 10 = 0

/-- The digit runs of a text, whose digits may be separated by single spaces or dashes, after a run
that is being read. -/
def cardRuns (run : List ℕ) : List Char → List (List ℕ)
  | [] => [run]
  | char :: chars =>
    if char.isDigit then cardRuns (run ++ [char.toNat - '0'.toNat]) chars
    else if run ≠ [] ∧ (char = ' ' ∨ char = '-') ∧ chars.head?.any Char.isDigit then
      cardRuns run chars
    else run :: cardRuns [] chars

def hasPaymentCard (text : String) : Bool :=
  (cardRuns [] text.toList).any fun digits ↦
    decide (13 ≤ digits.length) && decide (digits.length ≤ 19) && luhnOk digits

section

variable (detectors : Detectors)

def classifyScalar (text : String) : ScalarClass :=
  if detectors.secretPatterns text || hasHighEntropyBlob detectors text || hasPaymentCard text then
    .secret
  else if detectors.email text then .pii
  else .clean

def isSensitiveKeyData (key : String) : Bool := classifyScalar detectors key ≠ .clean

end

/-! ## Markers and placeholders -/

def markSensitiveName : String := "\u2588 REDACTED (sensitive field name) \u2588"

def markSecret : String := "\u2588 REDACTED (secret) \u2588"

def markPii : String := "\u2588 REDACTED (pii) \u2588"

def keyPlaceholder (number : ℕ) : String := "[REDACTED_KEY_" ++ toString number ++ "]"

theorem toList_keyPlaceholder (number : ℕ) : (keyPlaceholder number).toList =
    "[REDACTED_KEY_".toList ++ (Nat.toDigits 10 number ++ [']']) := by
  simp only [keyPlaceholder, String.toList_append, Nat.toString_eq_repr, Nat.toList_repr,
    List.append_assoc]
  rfl

theorem keyPlaceholder_injective : Function.Injective keyPlaceholder := by
  intro left right hkey
  have hlists := congrArg String.toList hkey
  rw [toList_keyPlaceholder, toList_keyPlaceholder] at hlists
  have hdigits := List.append_cancel_right (List.append_cancel_left hlists)
  calc
    left = Nat.ofDigitChars 10 (Nat.toDigits 10 left) 0 := Nat.ofDigitChars_ten_toDigits.symm
    _ = Nat.ofDigitChars 10 (Nat.toDigits 10 right) 0 := by rw [hdigits]
    _ = right := Nat.ofDigitChars_ten_toDigits

theorem isDigit_of_mem_digits {number : ℕ} {char : Char} (hchar : char ∈ Nat.toDigits 10 number) :
    char.isDigit := Nat.isDigit_of_mem_toDigits (b := 10) (by decide) (by decide) hchar

/-! ## What the markers and placeholders are classified as -/

theorem length_of_mem_runsOf {keep : Char → Bool} {run found : List Char} {chars : List Char}
    (hfound : found ∈ runsOf keep run chars) : found.length ≤ run.length + chars.length := by
  induction chars generalizing run with
  | nil =>
      rw [runsOf, List.mem_singleton] at hfound
      subst hfound
      exact Nat.le_add_right _ _
  | cons char chars ih =>
      rw [runsOf] at hfound
      split at hfound
      · have hlength := ih hfound
        rw [List.length_append, List.length_singleton] at hlength
        rw [List.length_cons]
        omega
      · rcases List.mem_cons.mp hfound with rfl | hrest
        · exact Nat.le_add_right _ _
        · have hlength := ih hrest
          rw [List.length_nil] at hlength
          rw [List.length_cons]
          omega

theorem length_of_mem_cardRuns {run found : List ℕ} {chars : List Char}
    (hfound : found ∈ cardRuns run chars) :
    found.length ≤ run.length + chars.countP Char.isDigit := by
  induction chars generalizing run with
  | nil =>
      rw [cardRuns, List.mem_singleton] at hfound
      subst hfound
      exact Nat.le_add_right _ _
  | cons char chars ih =>
      rw [cardRuns] at hfound
      split at hfound
      · rename_i hdigit
        have hlength := ih hfound
        rw [List.length_append, List.length_singleton] at hlength
        rw [List.countP_cons_of_pos hdigit]
        omega
      · rename_i hdigit
        rw [List.countP_cons_of_neg hdigit]
        split at hfound
        · exact ih hfound
        · rcases List.mem_cons.mp hfound with rfl | hrest
          · exact Nat.le_add_right _ _
          · have hlength := ih hrest
            rw [List.length_nil] at hlength
            omega

/-- A text without a long run of digits or letters has neither a blob nor a card number. -/
theorem hasHighEntropyBlob_of_length {detectors : Detectors} {text : String}
    (hlength : text.toList.length < 32) : hasHighEntropyBlob detectors text = false := by
  have hshort : ∀ keep min entropy, 32 ≤ min → (runsOf keep [] text.toList).any (fun run ↦
      decide (min ≤ run.length) && detectors.shannonAtLeast run entropy) = false := by
    intro keep min entropy hmin
    refine List.any_eq_false.mpr fun run hrun ↦ ?_
    have hrunLength := length_of_mem_runsOf hrun
    rw [List.length_nil, Nat.zero_add] at hrunLength
    rw [decide_eq_false (by omega), Bool.false_and]
    exact Bool.false_ne_true
  simp only [hasHighEntropyBlob, List.any_cons, List.any_nil, hshort _ 32 _ le_rfl,
    hshort _ 40 _ (by decide), Bool.or_self]

theorem hasPaymentCard_of_countP {text : String}
    (hcount : text.toList.countP Char.isDigit < 13) : hasPaymentCard text = false := by
  refine List.any_eq_false.mpr fun digits hdigits ↦ ?_
  have hlength := length_of_mem_cardRuns hdigits
  rw [List.length_nil, Nat.zero_add] at hlength
  rw [decide_eq_false (by omega), Bool.false_and, Bool.false_and]
  exact Bool.false_ne_true

/-- The patterns match none of the markers and none of the placeholders of 32-bit numbers. -/
structure Detectors.PassMarks (detectors : Detectors) : Prop where
  marks : ∀ mark ∈ [markSensitiveName, markSecret, markPii],
    detectors.secretPatterns mark = false ∧ detectors.email mark = false
  placeholders : ∀ number < 2 ^ 32, detectors.secretPatterns (keyPlaceholder number) = false ∧
    detectors.email (keyPlaceholder number) = false

/-- The tables of Unicode say of ASCII what is known of it. -/
structure Folding.AgreesOnAscii (folding : Folding) : Prop where
  nfkc : ∀ text : String, (∀ char ∈ text.toList, char.toNat < 128) →
    folding.nfkc text = text.toList
  toLowercase : ∀ char : Char, char.toNat < 128 → folding.toLowercase char = [char.toLower]
  isAlphanumeric : ∀ char : Char, char.toNat < 128 → folding.isAlphanumeric char = char.isAlphanum

section

variable {detectors : Detectors} {number : ℕ}

theorem length_digits (hnumber : number < 2 ^ 32) : (Nat.toDigits 10 number).length ≤ 10 :=
  Nat.toDigits_length 10 number 10 (by decide) (by omega)

theorem classifyScalar_mark (hpass : detectors.PassMarks) {mark : String}
    (hmark : mark ∈ [markSensitiveName, markSecret, markPii]) :
    classifyScalar detectors mark = .clean := by
  have hscan : hasHighEntropyBlob detectors mark = false ∧ hasPaymentCard mark = false := by
    rcases List.mem_cons.mp hmark with rfl | hmark
    · exact ⟨rfl, rfl⟩
    · rcases List.mem_cons.mp hmark with rfl | hmark
      · exact ⟨rfl, rfl⟩
      · obtain rfl := List.mem_singleton.mp hmark
        exact ⟨rfl, rfl⟩
  rcases hpass.marks mark hmark with ⟨hsecret, hemail⟩
  simp [classifyScalar, hsecret, hscan, hemail]

theorem classifyScalar_placeholder (hpass : detectors.PassMarks) (hnumber : number < 2 ^ 32) :
    classifyScalar detectors (keyPlaceholder number) = .clean := by
  have hlength := length_digits hnumber
  have hblob : hasHighEntropyBlob detectors (keyPlaceholder number) = false := by
    apply hasHighEntropyBlob_of_length
    rw [toList_keyPlaceholder, List.length_append, List.length_append]
    have hmark : "[REDACTED_KEY_".toList.length = 14 := rfl
    rw [hmark, List.length_singleton]
    omega
  have hcard : hasPaymentCard (keyPlaceholder number) = false := by
    apply hasPaymentCard_of_countP
    rw [toList_keyPlaceholder, List.countP_append, List.countP_append]
    have hmark : "[REDACTED_KEY_".toList.countP Char.isDigit = 0 := rfl
    have hsuffix : [']'].countP Char.isDigit = 0 := rfl
    have hdigits := @List.countP_le_length _ Char.isDigit (Nat.toDigits 10 number)
    omega
  rcases hpass.placeholders number hnumber with ⟨hsecret, hemail⟩
  simp [classifyScalar, hsecret, hblob, hcard, hemail]

theorem toNat_toLower_lt {char : Char} (hchar : char.toNat < 128) : char.toLower.toNat < 128 := by
  have hall : ∀ code < 128, (Char.ofNat code).toLower.toNat < 128 := by decide
  simpa using hall char.toNat hchar

theorem normalizeName_ascii {folding : Folding} (hascii : folding.AgreesOnAscii) {name : String}
    (hname : ∀ char ∈ name.toList, char.toNat < 128) :
    normalizeName folding name = (name.toList.map Char.toLower).filter Char.isAlphanum := by
  have hlower : name.toList.flatMap folding.toLowercase = name.toList.map Char.toLower := by
    rw [List.map_eq_flatMap]
    exact List.flatMap_congr fun char hchar ↦ hascii.toLowercase char (hname char hchar)
  rw [normalizeName, hascii.nfkc name hname, hlower]
  refine List.filter_congr fun char hchar ↦ ?_
  rcases List.mem_map.mp hchar with ⟨upper, hupper, rfl⟩
  exact hascii.isAlphanumeric _ (toNat_toLower_lt (hname upper hupper))

theorem isDigit_facts {char : Char} (hdigit : char.isDigit) :
    char.toNat < 128 ∧ char.toLower = char ∧ char.isAlphanum := by
  have hall : ∀ code < 58, 48 ≤ code → (Char.ofNat code).toLower = Char.ofNat code ∧
      (Char.ofNat code).isAlphanum := by decide
  rcases Char.isDigit_iff_toNat.mp hdigit with ⟨hlow, hhigh⟩
  have hcode := hall char.toNat (Nat.lt_succ_of_le hhigh) hlow
  rw [Char.ofNat_toNat] at hcode
  exact ⟨lt_of_le_of_lt hhigh (by decide), hcode⟩

theorem normalizeName_placeholder {folding : Folding} (hascii : folding.AgreesOnAscii) :
    normalizeName folding (keyPlaceholder number) =
      "redactedkey".toList ++ Nat.toDigits 10 number := by
  have hmark : ∀ char ∈ "[REDACTED_KEY_".toList, char.toNat < 128 := by
    have hall : "[REDACTED_KEY_".toList.all (fun char ↦ char.toNat < 128) = true := by decide
    simpa only [List.all_eq_true, decide_eq_true_eq] using hall
  have hrange : ∀ char ∈ (keyPlaceholder number).toList, char.toNat < 128 := by
    intro char hchar
    rw [toList_keyPlaceholder] at hchar
    rcases List.mem_append.mp hchar with hchar | hchar
    · exact hmark char hchar
    · rcases List.mem_append.mp hchar with hchar | hchar
      · exact (isDigit_facts (isDigit_of_mem_digits hchar)).1
      · rw [List.mem_singleton.mp hchar]
        decide
  have hlower : (Nat.toDigits 10 number).map Char.toLower = Nat.toDigits 10 number :=
    (List.map_congr_left fun char hchar ↦
      (isDigit_facts (isDigit_of_mem_digits hchar)).2.1).trans (List.map_id _)
  have hkept : (Nat.toDigits 10 number).filter Char.isAlphanum = Nat.toDigits 10 number :=
    List.filter_eq_self.mpr fun char hchar ↦ (isDigit_facts (isDigit_of_mem_digits hchar)).2.2
  rw [normalizeName_ascii hascii hrange, toList_keyPlaceholder]
  simp only [List.map_append, List.filter_append, hlower, hkept]
  have hbefore : ("[REDACTED_KEY_".toList.map Char.toLower).filter Char.isAlphanum =
      "redactedkey".toList := by decide
  have hafter : ([']'].map Char.toLower).filter Char.isAlphanum = [] := by decide
  rw [hbefore, hafter, List.append_nil]

/-- No listed word has a digit, and none is in the folded text of the placeholders. -/
theorem sensitiveFieldName_placeholder {folding : Folding} (hascii : folding.AgreesOnAscii) :
    sensitiveFieldName folding (keyPlaceholder number) = false := by
  have hwords : ∀ word ∈ sensitiveNameSubstrings,
      word.toList.filter (fun char ↦ !char.isDigit) = word.toList ∧
        ¬word.toList <:+: "redactedkey".toList := by decide +kernel
  have hdigits : (Nat.toDigits 10 number).filter (fun char ↦ !char.isDigit) = [] := by
    refine List.filter_eq_nil_iff.mpr fun char hchar ↦ ?_
    rw [isDigit_of_mem_digits hchar]
    exact Bool.false_ne_true
  unfold sensitiveFieldName
  rw [normalizeName_placeholder hascii]
  dsimp only
  split
  · rfl
  · refine List.any_eq_false.mpr fun word hword hinfix ↦ ?_
    have hletters := (of_decide_eq_true hinfix).filter fun char ↦ !char.isDigit
    rw [List.filter_append, hdigits, List.append_nil, (hwords word hword).1] at hletters
    exact (hwords word hword).2 hletters

end

end Deblob.Dlp
