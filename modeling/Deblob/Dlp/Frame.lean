import Deblob.Dlp.Rewriting

/-!
# What a redaction keeps

A redaction keeps the members of the objects and the items of the arrays, and what is clean. It
does exactly when no key of an object looks like a placeholder that a member beside it gets: a
rewriting never has more members than are reached, and as many only if no two keys became equal.
-/

namespace Deblob.Dlp

open Lib

section

variable (detectors : Detectors)

mutual

/-- An object keeps its members, an array its items, and what is clean stays as it is; the members
with sensitive names hold the marker. -/
def Framed : Value → Value → Prop
  | .object members, out => ∃ outMembers renamed, out = .object outMembers ∧
      renamed.Perm outMembers ∧ FramedMembers members renamed
  | .array items, out => ∃ outItems, out = .array outItems ∧ FramedItems items outItems
  | .string text, out => ∃ outText, out = .string outText ∧
      (classifyScalar detectors text = .clean → outText = text)
  | .number text, out => ((∃ outText, out = .string outText) ∨ out = .number text) ∧
      (classifyScalar detectors text = .clean → out = .number text)
  | .bool value, out => out = .bool value
  | .null, out => out = .null

def FramedMembers : List (String × Value) → List (String × Value) → Prop
  | [], renamed => renamed = []
  | (key, value) :: members, renamed => ∃ outKey out rest, renamed = (outKey, out) :: rest ∧
      (classifyScalar detectors key = .clean → outKey = key) ∧
      (if detectors.sensitive key then out = .string markSensitiveName else Framed value out) ∧
      FramedMembers members rest

def FramedItems : List Value → List Value → Prop
  | [], outItems => outItems = []
  | item :: items, outItems => ∃ out rest, outItems = out :: rest ∧ Framed item out ∧
      FramedItems items rest

end

/-- The placeholders that the members of one object get. -/
def placeholders : List (String × Value) → ℕ → List String
  | [], _ => []
  | (key, value) :: members, seq =>
    if detectors.sensitive key then placeholders members seq
    else if isSensitiveKeyData detectors key then
      keyPlaceholder (seq + 1) :: placeholders members (seq + 1 + value.dynamicKeys detectors)
    else placeholders members (seq + value.dynamicKeys detectors)

mutual

/-- No key of an object is a placeholder that another member of the object gets. -/
def NoClash : Value → ℕ → Prop
  | .object members, seq =>
    (∀ placeholder ∈ placeholders detectors members seq, placeholder ∉ members.map Prod.fst) ∧
      NoClashMembers members seq
  | .array items, seq => NoClashItems items seq
  | .string _, _ => True
  | .number _, _ => True
  | .bool _, _ => True
  | .null, _ => True

def NoClashMembers : List (String × Value) → ℕ → Prop
  | [], _ => True
  | (key, value) :: members, seq =>
    if detectors.sensitive key then NoClashMembers members seq
    else if isSensitiveKeyData detectors key then
      NoClash value (seq + 1) ∧ NoClashMembers members (seq + 1 + value.dynamicKeys detectors)
    else NoClash value seq ∧ NoClashMembers members (seq + value.dynamicKeys detectors)

def NoClashItems : List Value → ℕ → Prop
  | [], _ => True
  | item :: items, seq =>
    NoClash item seq ∧ NoClashItems items (seq + item.dynamicKeys detectors)

end

end

/-! ## The keys of an object -/

section

variable {detectors : Detectors} {seq : ℕ}

/-- The members that keep their keys. -/
def keepsKey (detectors : Detectors) (member : String × Value) : Bool :=
  detectors.sensitive member.1 || !isSensitiveKeyData detectors member.1

theorem isSensitiveKeyData_iff {key : String} :
    isSensitiveKeyData detectors key = true ↔ classifyScalar detectors key ≠ .clean :=
  decide_eq_true_iff

/-- The new keys are the ones that are kept and the placeholders. -/
theorem keys_rewriteMembers (members : List (String × Value)) (seq : ℕ) :
    ((rewriteMembers detectors members seq).map Prod.fst).Perm
      (placeholders detectors members seq ++
        (members.filter (keepsKey detectors)).map Prod.fst) := by
  induction members generalizing seq with
  | nil => exact .refl _
  | cons member members ih =>
      rw [rewriteMembers, placeholders]
      by_cases hsensitive : detectors.sensitive member.1
      · have hkeeps : keepsKey detectors member := by simp [keepsKey, hsensitive]
        rw [if_pos hsensitive, if_pos hsensitive, List.filter_cons_of_pos hkeeps, List.map_cons,
          List.map_cons]
        exact ((ih seq).cons _).trans List.perm_middle.symm
      · by_cases hdata : isSensitiveKeyData detectors member.1
        · have hkeeps : ¬keepsKey detectors member := by simp [keepsKey, hsensitive, hdata]
          rw [if_neg hsensitive, if_neg hsensitive, if_pos hdata, if_pos hdata,
            List.filter_cons_of_neg hkeeps, List.map_cons]
          exact (ih _).cons _
        · have hkeeps : keepsKey detectors member := by simp [keepsKey, hdata]
          rw [if_neg hsensitive, if_neg hsensitive, if_neg hdata, if_neg hdata,
            List.filter_cons_of_pos hkeeps, List.map_cons, List.map_cons]
          exact ((ih _).cons _).trans List.perm_middle.symm

/-- The keys that are renamed in a member and in the members after it. -/
theorem membersWeight_keys (member : String × Value) (members : List (String × Value)) :
    membersWeight detectors.sensitive (keyWeights detectors) (member :: members) =
      (if detectors.sensitive member.1 then 0
        else (if isSensitiveKeyData detectors member.1 then 1 else 0) +
          member.2.dynamicKeys detectors) +
        membersWeight detectors.sensitive (keyWeights detectors) members := rfl

/-- The placeholders have the numbers of the keys that are renamed. -/
theorem number_of_mem_placeholders {members : List (String × Value)} {placeholder : String}
    (hmem : placeholder ∈ placeholders detectors members seq) :
    ∃ number, seq < number ∧
      number ≤ seq + membersWeight detectors.sensitive (keyWeights detectors) members ∧
        placeholder = keyPlaceholder number := by
  induction members generalizing seq with
  | nil => cases hmem
  | cons member members ih =>
      rw [placeholders] at hmem
      rw [membersWeight_keys]
      by_cases hsensitive : detectors.sensitive member.1
      · rw [if_pos hsensitive] at hmem
        rcases ih hmem with ⟨number, hlow, hhigh, heq⟩
        rw [if_pos hsensitive]
        exact ⟨number, hlow, by omega, heq⟩
      · rw [if_neg hsensitive] at hmem
        rw [if_neg hsensitive]
        by_cases hdata : isSensitiveKeyData detectors member.1
        · rw [if_pos hdata] at hmem
          rw [if_pos hdata]
          rcases List.mem_cons.mp hmem with heq | hrest
          · exact ⟨seq + 1, by omega, by omega, heq⟩
          · rcases ih hrest with ⟨number, hlow, hhigh, heq⟩
            exact ⟨number, by omega, by omega, heq⟩
        · rw [if_neg hdata] at hmem
          rw [if_neg hdata]
          rcases ih hmem with ⟨number, hlow, hhigh, heq⟩
          exact ⟨number, by omega, by omega, heq⟩

theorem nodup_placeholders (members : List (String × Value)) (seq : ℕ) :
    (placeholders detectors members seq).Nodup := by
  induction members generalizing seq with
  | nil => exact List.nodup_nil
  | cons member members ih =>
      rw [placeholders]
      split
      · exact ih seq
      · split
        · refine List.nodup_cons.mpr ⟨fun hmem ↦ ?_, ih _⟩
          rcases number_of_mem_placeholders hmem with ⟨number, hlow, -, heq⟩
          have hnumber := keyPlaceholder_injective heq
          omega
        · exact ih _

/-- A placeholder among the keys is clean, so its member keeps it. -/
theorem mem_kept_of_placeholder (hpass : detectors.PassMarks) {members : List (String × Value)}
    (hbound : seq + membersWeight detectors.sensitive (keyWeights detectors) members < 2 ^ 32)
    {placeholder : String} (hmem : placeholder ∈ placeholders detectors members seq)
    (hkey : placeholder ∈ members.map Prod.fst) :
    placeholder ∈ (members.filter (keepsKey detectors)).map Prod.fst := by
  rcases number_of_mem_placeholders hmem with ⟨number, -, hhigh, rfl⟩
  rcases List.mem_map.mp hkey with ⟨member, hmember, heq⟩
  have hclean := classifyScalar_placeholder hpass (lt_of_le_of_lt hhigh hbound)
  have hkeeps : keepsKey detectors member := by
    simp [keepsKey, isSensitiveKeyData, heq, hclean]
  exact List.mem_map.mpr ⟨member, List.mem_filter.mpr ⟨hmember, hkeeps⟩, heq⟩

/-- The new keys are distinct exactly when no old key is one of the placeholders. -/
theorem nodup_keys_iff (hpass : detectors.PassMarks) {members : List (String × Value)}
    (hsorted : SortedKeys members)
    (hbound : seq + membersWeight detectors.sensitive (keyWeights detectors) members < 2 ^ 32) :
    ((rewriteMembers detectors members seq).map Prod.fst).Nodup ↔
      ∀ placeholder ∈ placeholders detectors members seq, placeholder ∉ members.map Prod.fst := by
  have hkept : ((members.filter (keepsKey detectors)).map Prod.fst).Nodup :=
    hsorted.nodup_keys.sublist (List.filter_sublist.map _)
  rw [(keys_rewriteMembers members seq).nodup_iff, List.nodup_append]
  constructor
  · rintro ⟨-, -, hdisjoint⟩ placeholder hmem hkey
    exact hdisjoint placeholder hmem placeholder
      (mem_kept_of_placeholder hpass hbound hmem hkey) rfl
  · intro hfree
    refine ⟨nodup_placeholders members seq, hkept, ?_⟩
    rintro placeholder hmem _ hkey rfl
    exact hfree placeholder hmem ((List.filter_sublist.map Prod.fst).mem hkey)

/-! ## The members that are counted -/

/-- Every key counts once. -/
def countWeights : Weights where
  number _ := 0
  string _ := 0
  sensitive := 1
  key _ := 1

/-- The members of a result. -/
abbrev Value.count (value : Value) : ℕ := value.weight (fun _ ↦ false) countWeights

/-- The members of a document that are reached. -/
abbrev Value.reached (detectors : Detectors) (value : Value) : ℕ :=
  value.weight detectors.sensitive countWeights

theorem reached_members (member : String × Value) (members : List (String × Value)) :
    membersWeight detectors.sensitive countWeights (member :: members) =
      (if detectors.sensitive member.1 then 1 else 1 + member.2.reached detectors) +
        membersWeight detectors.sensitive countWeights members := rfl

theorem count_members (member : String × Value) (members : List (String × Value)) :
    membersWeight (fun _ ↦ false) countWeights (member :: members) =
      1 + member.2.count + membersWeight (fun _ ↦ false) countWeights members := rfl

/-- The result of a framed redaction has all the members that are reached. -/
theorem Framed.count_eq {value out : Value} (hframed : Framed detectors value out) :
    out.count = value.reached detectors := by
  induction value using Value.induct generalizing out with
  | null =>
      cases hframed
      rfl
  | bool value =>
      cases hframed
      rfl
  | number text =>
      rcases hframed.1 with ⟨_, rfl⟩ | rfl
      · rfl
      · rfl
  | string text =>
      rcases hframed with ⟨_, rfl, -⟩
      rfl
  | array items ih =>
      rcases hframed with ⟨outItems, rfl, hitems⟩
      show itemsWeight _ _ outItems = itemsWeight _ _ items
      induction items generalizing outItems with
      | nil =>
          cases hitems
          rfl
      | cons item items ihItems =>
          rcases List.forall_mem_cons.mp ih with ⟨hitem, hrest⟩
          rcases hitems with ⟨out, rest, rfl, hframed, hothers⟩
          rw [itemsWeight, itemsWeight]
          exact congrArg₂ (· + ·) (hitem hframed) (ihItems hrest rest hothers)
  | object members ih =>
      rcases hframed with ⟨outMembers, renamed, rfl, hperm, hmembers⟩
      show membersWeight _ _ outMembers = membersWeight _ _ members
      rw [← membersWeight_perm hperm]
      clear hperm
      induction members generalizing renamed with
      | nil =>
          cases hmembers
          rfl
      | cons member members ihMembers =>
          rcases List.forall_mem_cons.mp ih with ⟨hmember, hrest⟩
          rcases hmembers with ⟨outKey, out, rest, rfl, -, hvalue, hothers⟩
          rw [count_members, reached_members, ihMembers hrest rest hothers]
          split at hvalue
          · rename_i hsensitive
            rw [if_pos hsensitive, hvalue]
            rfl
          · rename_i hsensitive
            rw [if_neg hsensitive, hmember hvalue]

/-- A map that has as many members as it is built of has distinct keys. -/
theorem nodup_keys_of_count {members : List (String × Value)}
    (hcount : membersWeight (fun _ ↦ false) countWeights (collectMap members) =
      membersWeight (fun _ ↦ false) countWeights members) : (members.map Prod.fst).Nodup := by
  rcases exists_perm_collectMap members with ⟨lost, hperm⟩
  rw [membersWeight_perm hperm, membersWeight_append] at hcount
  cases lost with
  | nil =>
      rw [List.append_nil] at hperm
      rw [(hperm.map Prod.fst).nodup_iff]
      exact (sortedKeys_collectMap members).nodup_keys
  | cons member lost =>
      rw [count_members] at hcount
      omega

/-- A rewriting has no more members than are reached, and as many only without a clash. -/
theorem count_rewrite (hpass : detectors.PassMarks) (value : Value) (hsorted : value.Sorted)
    (hbound : seq + value.dynamicKeys detectors < 2 ^ 32) :
    (rewrite detectors value seq).count ≤ value.reached detectors ∧
      ((rewrite detectors value seq).count = value.reached detectors →
        NoClash detectors value seq) := by
  induction value using Value.induct generalizing seq with
  | null => exact ⟨le_rfl, fun _ ↦ trivial⟩
  | bool value => exact ⟨le_rfl, fun _ ↦ trivial⟩
  | number text =>
      refine ⟨?_, fun _ ↦ trivial⟩
      rw [rewrite]
      split
      · exact le_rfl
      · exact le_rfl
  | string text => exact ⟨le_rfl, fun _ ↦ trivial⟩
  | array items ih =>
      rcases hsorted with _ | _ | _ | _ | hitems | _
      change _ + itemsWeight _ _ items < _ at hbound
      show itemsWeight _ _ (rewriteItems detectors items seq) ≤ itemsWeight _ _ items ∧
        (itemsWeight _ _ (rewriteItems detectors items seq) = itemsWeight _ _ items →
          NoClashItems detectors items seq)
      induction items generalizing seq with
      | nil => exact ⟨le_rfl, fun _ ↦ trivial⟩
      | cons item items ihItems =>
          rcases List.forall_mem_cons.mp ih with ⟨hitem, hrest⟩
          rcases List.forall_mem_cons.mp hitems with ⟨hsorted, hothers⟩
          change seq + (item.dynamicKeys detectors + itemsWeight _ _ items) < _ at hbound
          rcases @hitem seq hsorted (by omega) with ⟨hle, hfree⟩
          rcases @ihItems hrest (seq + item.dynamicKeys detectors) hothers (by omega) with
            ⟨hleRest, hfreeRest⟩
          show (rewrite detectors item seq).count + _ ≤ item.reached detectors + _ ∧
            ((rewrite detectors item seq).count + _ = item.reached detectors + _ → _ ∧ _)
          refine ⟨by omega, fun heq ↦ ⟨hfree (by omega), hfreeRest (by omega)⟩⟩
  | object members ih =>
      rcases hsorted with _ | _ | _ | _ | _ | ⟨hkeys, hmembers⟩
      change _ + membersWeight _ _ members < _ at hbound
      have hlist : membersWeight (fun _ ↦ false) countWeights
            (rewriteMembers detectors members seq) ≤
          membersWeight detectors.sensitive countWeights members ∧
          (membersWeight (fun _ ↦ false) countWeights (rewriteMembers detectors members seq) =
              membersWeight detectors.sensitive countWeights members →
            NoClashMembers detectors members seq) := by
        clear hkeys
        induction members generalizing seq with
        | nil => exact ⟨le_rfl, fun _ ↦ trivial⟩
        | cons member members ihMembers =>
            rcases List.forall_mem_cons.mp ih with ⟨hmember, hrest⟩
            rcases List.forall_mem_cons.mp hmembers with ⟨hsorted, hothers⟩
            rw [membersWeight_keys] at hbound
            rw [reached_members, rewriteMembers, NoClashMembers]
            by_cases hsensitive : detectors.sensitive member.1
            · rw [if_pos hsensitive] at hbound ⊢
              rcases @ihMembers hrest seq hothers (by omega) with ⟨hle, hfree⟩
              rw [if_pos hsensitive, if_pos hsensitive, count_members]
              change 1 + 0 + _ ≤ _ ∧ (1 + 0 + _ = _ → _)
              exact ⟨by omega, fun heq ↦ hfree (by omega)⟩
            · rw [if_neg hsensitive] at hbound ⊢
              rw [if_neg hsensitive, if_neg hsensitive]
              by_cases hdata : isSensitiveKeyData detectors member.1
              · rw [if_pos hdata] at hbound ⊢
                rcases @hmember (seq + 1) hsorted (by omega) with ⟨hle, hfree⟩
                rcases @ihMembers hrest (seq + 1 + member.2.dynamicKeys detectors) hothers
                  (by omega) with ⟨hleRest, hfreeRest⟩
                rw [if_pos hdata, count_members]
                dsimp only
                exact ⟨by omega, fun heq ↦ ⟨hfree (by omega), hfreeRest (by omega)⟩⟩
              · rw [if_neg hdata] at hbound ⊢
                rcases @hmember seq hsorted (by omega) with ⟨hle, hfree⟩
                rcases @ihMembers hrest (seq + member.2.dynamicKeys detectors) hothers
                  (by omega) with ⟨hleRest, hfreeRest⟩
                rw [if_neg hdata, count_members]
                dsimp only
                exact ⟨by omega, fun heq ↦ ⟨hfree (by omega), hfreeRest (by omega)⟩⟩
      have hmap := @membersWeight_collectMap_le (fun _ ↦ false) countWeights
        (rewriteMembers detectors members seq)
      show membersWeight _ _ (collectMap (rewriteMembers detectors members seq)) ≤
          membersWeight _ _ members ∧
        (membersWeight _ _ (collectMap (rewriteMembers detectors members seq)) =
          membersWeight _ _ members → _)
      refine ⟨hmap.trans hlist.1, fun heq ↦ ?_⟩
      have hcount := le_antisymm hlist.1 (heq.symm.trans_le hmap)
      exact ⟨(nodup_keys_iff hpass hkeys hbound).mp (nodup_keys_of_count (heq.trans hcount.symm)),
        hlist.2 hcount⟩

/-! ## What a rewriting keeps -/

/-- Without a clash nothing is lost. -/
theorem framed_rewrite (hpass : detectors.PassMarks) (value : Value) (hsorted : value.Sorted)
    (hbound : seq + value.dynamicKeys detectors < 2 ^ 32)
    (hfree : NoClash detectors value seq) :
    Framed detectors value (rewrite detectors value seq) := by
  induction value using Value.induct generalizing seq with
  | null => rfl
  | bool value => rfl
  | number text =>
      rw [rewrite, Framed]
      split
      · rename_i hsecret
        refine ⟨.inl ⟨_, rfl⟩, fun hclean ↦ ?_⟩
        rw [hsecret] at hclean
        cases hclean
      · exact ⟨.inr rfl, fun _ ↦ rfl⟩
  | string text =>
      refine ⟨_, rfl, fun hclean ↦ ?_⟩
      rw [scalarText, hclean]
  | array items ih =>
      rcases hsorted with _ | _ | _ | _ | hitems | _
      change _ + itemsWeight _ _ items < _ at hbound
      refine ⟨_, rfl, ?_⟩
      change NoClashItems detectors items seq at hfree
      induction items generalizing seq with
      | nil => rfl
      | cons item items ihItems =>
          rcases List.forall_mem_cons.mp ih with ⟨hitem, hrest⟩
          rcases List.forall_mem_cons.mp hitems with ⟨hsorted, hothers⟩
          change seq + (item.dynamicKeys detectors + itemsWeight _ _ items) < _ at hbound
          exact ⟨_, _, rfl, hitem hsorted (by omega) hfree.1,
            ihItems hrest hothers (by omega) hfree.2⟩
  | object members ih =>
      rcases hsorted with _ | _ | _ | _ | _ | ⟨hkeys, hmembers⟩
      change _ + membersWeight _ _ members < _ at hbound
      rcases hfree with ⟨hplaceholders, hfree⟩
      have hnodup := (nodup_keys_iff hpass hkeys hbound).mpr hplaceholders
      refine ⟨_, _, rfl, (collectMap_perm hnodup).symm, ?_⟩
      clear hnodup hplaceholders hkeys
      induction members generalizing seq with
      | nil => rfl
      | cons member members ihMembers =>
          rcases List.forall_mem_cons.mp ih with ⟨hmember, hrest⟩
          rcases List.forall_mem_cons.mp hmembers with ⟨hsorted, hothers⟩
          rw [membersWeight_keys] at hbound
          rw [NoClashMembers] at hfree
          rw [rewriteMembers]
          by_cases hsensitive : detectors.sensitive member.1
          · rw [if_pos hsensitive] at hbound hfree ⊢
            refine ⟨_, _, _, rfl, fun _ ↦ rfl, ?_, ihMembers hrest hothers (by omega) hfree⟩
            rw [if_pos hsensitive]
          · rw [if_neg hsensitive] at hbound hfree ⊢
            by_cases hdata : isSensitiveKeyData detectors member.1
            · rw [if_pos hdata] at hbound hfree ⊢
              refine ⟨_, _, _, rfl, fun hclean ↦ ?_, ?_,
                ihMembers hrest hothers (by omega) hfree.2⟩
              · exact absurd hclean (isSensitiveKeyData_iff.mp hdata)
              · rw [if_neg hsensitive]
                exact hmember hsorted (by omega) hfree.1
            · rw [if_neg hdata] at hbound hfree ⊢
              refine ⟨_, _, _, rfl, fun _ ↦ rfl, ?_, ihMembers hrest hothers (by omega) hfree.2⟩
              rw [if_neg hsensitive]
              exact hmember hsorted (by omega) hfree.1

end

end Deblob.Dlp
