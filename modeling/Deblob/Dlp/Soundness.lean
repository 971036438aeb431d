import Deblob.Dlp.Frame

/-!
# When a redaction is sound

A redaction is sound when it keeps the members and what is clean, no key and no scalar of the
result is classified as sensitive, and the result is redacted to itself. This holds exactly when no
key clashes with a placeholder, the sensitive names are clean texts, and no number is personal data.
-/

namespace Deblob.Dlp

open Lib

section

variable (detectors : Detectors)

/-- No key and no scalar is classified as sensitive. -/
inductive CleanValue : Value → Prop
  | null : CleanValue .null
  | bool (value : Bool) : CleanValue (.bool value)
  | number {text : String} (htext : classifyScalar detectors text = .clean) :
      CleanValue (.number text)
  | string {text : String} (htext : classifyScalar detectors text = .clean) :
      CleanValue (.string text)
  | array {items : List Value} (hitems : ∀ item ∈ items, CleanValue item) :
      CleanValue (.array items)
  | object {members : List (String × Value)}
      (hkeys : ∀ member ∈ members, classifyScalar detectors member.1 = .clean)
      (hmembers : ∀ member ∈ members, CleanValue member.2) : CleanValue (.object members)

structure Sound (cfg : DlpConfig) (value : Value) (out : Document) : Prop where
  framed : Framed detectors value out.value
  clean : CleanValue detectors out.value
  stable : (redact detectors cfg out).dropped = none ∧ (redact detectors cfg out).document = out

/-- The sensitive names are clean, and no number that is reached is personal data. -/
inductive Covered : Value → Prop
  | null : Covered .null
  | bool (value : Bool) : Covered (.bool value)
  | number {text : String} (htext : classifyScalar detectors text ≠ .pii) : Covered (.number text)
  | string (text : String) : Covered (.string text)
  | array {items : List Value} (hitems : ∀ item ∈ items, Covered item) : Covered (.array items)
  | object {members : List (String × Value)}
      (hnames : ∀ member ∈ members, detectors.sensitive member.1 →
        classifyScalar detectors member.1 = .clean)
      (hmembers : ∀ member ∈ members, ¬detectors.sensitive member.1 → Covered member.2) :
      Covered (.object members)

end

section

variable {detectors : Detectors} {seq : ℕ}

/-- A value that a redaction leaves as it is. -/
inductive Settled (detectors : Detectors) : Value → Prop
  | null : Settled detectors .null
  | bool (value : Bool) : Settled detectors (.bool value)
  | number {text : String} (htext : classifyScalar detectors text = .clean) :
      Settled detectors (.number text)
  | string {text : String} (htext : classifyScalar detectors text = .clean) :
      Settled detectors (.string text)
  | array {items : List Value} (hitems : ∀ item ∈ items, Settled detectors item) :
      Settled detectors (.array items)
  | object {members : List (String × Value)} (hsorted : SortedKeys members)
      (hkeys : ∀ member ∈ members, classifyScalar detectors member.1 = .clean)
      (hmarked : ∀ member ∈ members, detectors.sensitive member.1 →
        member.2 = .string markSensitiveName)
      (hmembers : ∀ member ∈ members, Settled detectors member.2) :
      Settled detectors (.object members)

theorem Settled.clean {value : Value} (hsettled : Settled detectors value) :
    CleanValue detectors value := by
  induction value using Value.induct with
  | null => exact .null
  | bool value => exact .bool value
  | number text =>
      rcases hsettled with _ | _ | htext | _ | _ | _
      exact .number htext
  | string text =>
      rcases hsettled with _ | _ | _ | htext | _ | _
      exact .string htext
  | array items ih =>
      rcases hsettled with _ | _ | _ | _ | hitems | _
      exact .array fun item hitem ↦ ih item hitem (hitems item hitem)
  | object members ih =>
      rcases hsettled with _ | _ | _ | _ | _ | ⟨-, hkeys, -, hmembers⟩
      exact .object hkeys fun member hmember ↦ ih member hmember (hmembers member hmember)

theorem Settled.rewrite_eq {value : Value} (hsettled : Settled detectors value) (seq : ℕ) :
    rewrite detectors value seq = value := by
  induction value using Value.induct generalizing seq with
  | null => rfl
  | bool value => rfl
  | number text =>
      rcases hsettled with _ | _ | htext | _ | _ | _
      rw [rewrite, htext, if_neg (by decide)]
  | string text =>
      rcases hsettled with _ | _ | _ | htext | _ | _
      rw [rewrite, scalarText, htext]
  | array items ih =>
      rcases hsettled with _ | _ | _ | _ | hitems | _
      rw [rewrite]
      apply congrArg
      induction items generalizing seq with
      | nil => rfl
      | cons item items ihItems =>
          rcases List.forall_mem_cons.mp ih with ⟨hitem, hrest⟩
          rcases List.forall_mem_cons.mp hitems with ⟨hfirst, hothers⟩
          rw [rewriteItems, hitem hfirst, ihItems hrest _ hothers]
  | object members ih =>
      rcases hsettled with _ | _ | _ | _ | _ | ⟨hsorted, hkeys, hmarked, hmembers⟩
      have hlist : rewriteMembers detectors members seq = members := by
        clear hsorted
        induction members generalizing seq with
        | nil => rfl
        | cons member members ihMembers =>
            rcases List.forall_mem_cons.mp ih with ⟨hmember, hrest⟩
            rcases List.forall_mem_cons.mp hkeys with ⟨hkey, hkeys⟩
            rcases List.forall_mem_cons.mp hmarked with ⟨hmark, hmarked⟩
            rcases List.forall_mem_cons.mp hmembers with ⟨hfirst, hothers⟩
            rw [rewriteMembers]
            by_cases hsensitive : detectors.sensitive member.1
            · rw [if_pos hsensitive, ihMembers hrest _ hkeys hmarked hothers, ← hmark hsensitive]
            · have hdata : ¬isSensitiveKeyData detectors member.1 := fun hdata ↦
                isSensitiveKeyData_iff.mp hdata hkey
              rw [if_neg hsensitive, if_neg hdata, ihMembers hrest _ hkeys hmarked hothers,
                hmember hfirst]
      rw [rewrite, hlist, hsorted.collectMap_eq]

theorem classifyScalar_scalarText (hpass : detectors.PassMarks) (text : String) :
    classifyScalar detectors (scalarText detectors text) = .clean := by
  unfold scalarText
  split
  · exact classifyScalar_mark hpass (by simp)
  · exact classifyScalar_mark hpass (by simp)
  · assumption

theorem classifyScalar_of_not_data {key : String} (hdata : ¬isSensitiveKeyData detectors key) :
    classifyScalar detectors key = .clean := by
  by_contra hsensitive
  exact hdata (isSensitiveKeyData_iff.mpr hsensitive)

/-- The rewriting of a covered value is settled. -/
theorem settled_rewrite (hpass : detectors.PassMarks) (hascii : detectors.folding.AgreesOnAscii)
    (value : Value) (hbound : seq + value.dynamicKeys detectors < 2 ^ 32)
    (hcovered : Covered detectors value) : Settled detectors (rewrite detectors value seq) := by
  have hmark : classifyScalar detectors markSensitiveName = .clean :=
    classifyScalar_mark hpass (by simp)
  induction value using Value.induct generalizing seq with
  | null => exact .null
  | bool value => exact .bool value
  | number text =>
      rcases hcovered with _ | _ | htext | _ | _ | _
      rw [rewrite]
      split
      · exact .string (classifyScalar_mark hpass (by simp))
      · rename_i hsecret
        apply Settled.number
        cases hclass : classifyScalar detectors text with
        | secret => exact absurd hclass hsecret
        | pii => exact absurd hclass htext
        | clean => rfl
  | string text => exact .string (classifyScalar_scalarText hpass text)
  | array items ih =>
      rcases hcovered with _ | _ | _ | _ | hitems | _
      change _ + itemsWeight _ _ items < _ at hbound
      refine .array ?_
      induction items generalizing seq with
      | nil => exact fun _ hmember ↦ absurd hmember List.not_mem_nil
      | cons item items ihItems =>
          rcases List.forall_mem_cons.mp ih with ⟨hitem, hrest⟩
          rcases List.forall_mem_cons.mp hitems with ⟨hfirst, hothers⟩
          change seq + (item.dynamicKeys detectors + itemsWeight _ _ items) < _ at hbound
          exact List.forall_mem_cons.mpr ⟨hitem (by omega) hfirst,
            ihItems hrest hothers (by omega)⟩
  | object members ih =>
      rcases hcovered with _ | _ | _ | _ | _ | ⟨hnames, hmembers⟩
      change _ + membersWeight _ _ members < _ at hbound
      have hlist : ∀ member ∈ rewriteMembers detectors members seq,
          classifyScalar detectors member.1 = .clean ∧
            (detectors.sensitive member.1 → member.2 = .string markSensitiveName) ∧
              Settled detectors member.2 := by
        induction members generalizing seq with
        | nil => exact fun _ hmember ↦ absurd hmember List.not_mem_nil
        | cons member members ihMembers =>
            rcases List.forall_mem_cons.mp ih with ⟨hmember, hrest⟩
            rcases List.forall_mem_cons.mp hnames with ⟨hname, hnames⟩
            rcases List.forall_mem_cons.mp hmembers with ⟨hfirst, hothers⟩
            rw [membersWeight_keys] at hbound
            rw [rewriteMembers]
            by_cases hsensitive : detectors.sensitive member.1
            · rw [if_pos hsensitive] at hbound ⊢
              exact List.forall_mem_cons.mpr ⟨⟨hname hsensitive, fun _ ↦ rfl, .string hmark⟩,
                ihMembers hrest hnames hothers (by omega)⟩
            · rw [if_neg hsensitive] at hbound ⊢
              by_cases hdata : isSensitiveKeyData detectors member.1
              · rw [if_pos hdata] at hbound ⊢
                refine List.forall_mem_cons.mpr ⟨⟨classifyScalar_placeholder hpass (by omega),
                  fun hname ↦ ?_, hmember (by omega) (hfirst hsensitive)⟩,
                  ihMembers hrest hnames hothers (by omega)⟩
                exact absurd hname (by simp [sensitiveFieldName_placeholder hascii])
              · rw [if_neg hdata] at hbound ⊢
                exact List.forall_mem_cons.mpr ⟨⟨classifyScalar_of_not_data hdata,
                  fun hname ↦ absurd hname hsensitive, hmember (by omega) (hfirst hsensitive)⟩,
                  ihMembers hrest hnames hothers (by omega)⟩
      exact .object (sortedKeys_collectMap _)
        (fun member hmember ↦ (hlist member (mem_of_mem_collectMap hmember)).1)
        (fun member hmember ↦ (hlist member (mem_of_mem_collectMap hmember)).2.1)
        (fun member hmember ↦ (hlist member (mem_of_mem_collectMap hmember)).2.2)

/-- Without a clash, a clean rewriting shows that the value was covered. -/
theorem covered_of_clean (hpass : detectors.PassMarks) (value : Value) (hsorted : value.Sorted)
    (hbound : seq + value.dynamicKeys detectors < 2 ^ 32) (hfree : NoClash detectors value seq)
    (hclean : CleanValue detectors (rewrite detectors value seq)) : Covered detectors value := by
  induction value using Value.induct generalizing seq with
  | null => exact .null
  | bool value => exact .bool value
  | number text =>
      apply Covered.number
      intro hpii
      rw [rewrite, hpii, if_neg (by decide)] at hclean
      rcases hclean with _ | _ | htext | _ | _ | _
      cases hpii.symm.trans htext
  | string text => exact .string text
  | array items ih =>
      rcases hsorted with _ | _ | _ | _ | hitems | _
      rcases hclean with _ | _ | _ | _ | hclean | _
      change _ + itemsWeight _ _ items < _ at hbound
      change NoClashItems detectors items seq at hfree
      apply Covered.array
      induction items generalizing seq with
      | nil => exact fun _ hmember ↦ absurd hmember List.not_mem_nil
      | cons item items ihItems =>
          rcases List.forall_mem_cons.mp ih with ⟨hitem, hrest⟩
          rcases List.forall_mem_cons.mp hitems with ⟨hsorted, hothers⟩
          rcases List.forall_mem_cons.mp hclean with ⟨hfirst, hclean⟩
          change seq + (item.dynamicKeys detectors + itemsWeight _ _ items) < _ at hbound
          exact List.forall_mem_cons.mpr ⟨hitem hsorted (by omega) hfree.1 hfirst,
            ihItems hrest hothers hclean (by omega) hfree.2⟩
  | object members ih =>
      rcases hsorted with _ | _ | _ | _ | _ | ⟨hkeys, hmembers⟩
      rcases hclean with _ | _ | _ | _ | _ | ⟨hcleanKeys, hclean⟩
      change _ + membersWeight _ _ members < _ at hbound
      rcases hfree with ⟨hplaceholders, hfree⟩
      have hperm := collectMap_perm ((nodup_keys_iff hpass hkeys hbound).mpr hplaceholders)
      have hlist : ∀ member ∈ rewriteMembers detectors members seq,
          classifyScalar detectors member.1 = .clean ∧ CleanValue detectors member.2 :=
        fun member hmember ↦ ⟨hcleanKeys member (hperm.mem_iff.mpr hmember),
          hclean member (hperm.mem_iff.mpr hmember)⟩
      have hboth : ∀ member ∈ members, (detectors.sensitive member.1 →
          classifyScalar detectors member.1 = .clean) ∧
            (¬detectors.sensitive member.1 → Covered detectors member.2) := by
        clear hkeys hperm hplaceholders hcleanKeys hclean
        induction members generalizing seq with
        | nil => exact fun _ hmember ↦ absurd hmember List.not_mem_nil
        | cons member members ihMembers =>
            rcases List.forall_mem_cons.mp ih with ⟨hmember, hrest⟩
            rcases List.forall_mem_cons.mp hmembers with ⟨hsorted, hothers⟩
            rw [membersWeight_keys] at hbound
            rw [NoClashMembers] at hfree
            rw [rewriteMembers] at hlist
            by_cases hsensitive : detectors.sensitive member.1
            · rw [if_pos hsensitive] at hbound hfree hlist
              rcases List.forall_mem_cons.mp hlist with ⟨hfirst, hlist⟩
              exact List.forall_mem_cons.mpr ⟨⟨fun _ ↦ hfirst.1, fun hnot ↦
                absurd hsensitive hnot⟩, ihMembers hrest hothers (by omega) hfree hlist⟩
            · rw [if_neg hsensitive] at hbound hfree hlist
              by_cases hdata : isSensitiveKeyData detectors member.1
              · rw [if_pos hdata] at hbound hfree hlist
                rcases List.forall_mem_cons.mp hlist with ⟨hfirst, hlist⟩
                exact List.forall_mem_cons.mpr ⟨⟨fun hname ↦ absurd hname hsensitive, fun _ ↦
                  hmember hsorted (by omega) hfree.1 hfirst.2⟩,
                  ihMembers hrest hothers (by omega) hfree.2 hlist⟩
              · rw [if_neg hdata] at hbound hfree hlist
                rcases List.forall_mem_cons.mp hlist with ⟨hfirst, hlist⟩
                exact List.forall_mem_cons.mpr ⟨⟨fun hname ↦ absurd hname hsensitive, fun _ ↦
                  hmember hsorted (by omega) hfree.1 hfirst.2⟩,
                  ihMembers hrest hothers (by omega) hfree.2 hlist⟩
      exact .object (fun member hmember ↦ (hboth member hmember).1)
        (fun member hmember ↦ (hboth member hmember).2)

/-- A rewriting is nested no deeper. -/
theorem nesting_rewrite_le (value : Value) :
    (rewrite detectors value seq).nesting detectors.sensitive ≤
      value.nesting detectors.sensitive := by
  induction value using Value.induct generalizing seq with
  | null => exact le_rfl
  | bool value => exact le_rfl
  | number text =>
      rw [rewrite]
      split
      · exact le_rfl
      · exact le_rfl
  | string text => exact le_rfl
  | array items ih =>
      show itemsNesting _ (rewriteItems detectors items seq) ≤ itemsNesting _ items
      induction items generalizing seq with
      | nil => exact le_rfl
      | cons item items ihItems =>
          rcases List.forall_mem_cons.mp ih with ⟨hitem, hrest⟩
          exact max_le_max (Nat.succ_le_succ hitem) (ihItems hrest)
  | object members ih =>
      have hlist : membersNesting detectors.sensitive (rewriteMembers detectors members seq) ≤
          membersNesting detectors.sensitive members := by
        induction members generalizing seq with
        | nil => exact le_rfl
        | cons member members ihMembers =>
            rcases List.forall_mem_cons.mp ih with ⟨hmember, hrest⟩
            rw [rewriteMembers, membersNesting]
            by_cases hsensitive : detectors.sensitive member.1
            · rw [if_pos hsensitive, if_pos hsensitive, membersNesting, if_pos hsensitive]
              exact max_le_max le_rfl (ihMembers hrest)
            · rw [if_neg hsensitive, if_neg hsensitive]
              split
              · rw [membersNesting]
                refine max_le_max ?_ (ihMembers hrest)
                split
                · exact Nat.zero_le _
                · exact Nat.succ_le_succ hmember
              · rw [membersNesting, if_neg hsensitive]
                exact max_le_max (Nat.succ_le_succ hmember) (ihMembers hrest)
      show membersNesting _ (collectMap (rewriteMembers detectors members seq)) ≤
        membersNesting _ members
      refine le_trans (membersNesting_le_iff.mpr fun member hmember hskip ↦ ?_) hlist
      exact membersNesting_le_iff.mp le_rfl member (mem_of_mem_collectMap hmember) hskip

theorem findings_members (member : String × Value) (members : List (String × Value)) :
    membersWeight detectors.sensitive (findingWeights detectors) (member :: members) =
      (if detectors.sensitive member.1 then 1
        else (if isSensitiveKeyData detectors member.1 then 1 else 0) +
          member.2.findings detectors) +
        membersWeight detectors.sensitive (findingWeights detectors) members := rfl

/-- A rewriting has no more findings. -/
theorem findings_rewrite_le (hpass : detectors.PassMarks)
    (hascii : detectors.folding.AgreesOnAscii) (value : Value)
    (hbound : seq + value.dynamicKeys detectors < 2 ^ 32) :
    (rewrite detectors value seq).findings detectors ≤ value.findings detectors := by
  have hclean : ∀ text, classifyScalar detectors text = .clean →
      (Value.string text).findings detectors = 0 := by
    intro text htext
    show (if classifyScalar detectors text = .clean then 0 else 1) = 0
    rw [if_pos htext]
  induction value using Value.induct generalizing seq with
  | null => exact le_rfl
  | bool value => exact le_rfl
  | number text =>
      rw [rewrite]
      split
      · rw [hclean _ (classifyScalar_mark hpass (by simp))]
        exact Nat.zero_le _
      · exact le_rfl
  | string text =>
      rw [rewrite, hclean _ (classifyScalar_scalarText hpass text)]
      exact Nat.zero_le _
  | array items ih =>
      change _ + itemsWeight _ _ items < _ at hbound
      show itemsWeight _ _ (rewriteItems detectors items seq) ≤ itemsWeight _ _ items
      induction items generalizing seq with
      | nil => exact le_rfl
      | cons item items ihItems =>
          rcases List.forall_mem_cons.mp ih with ⟨hitem, hrest⟩
          change seq + (item.dynamicKeys detectors + itemsWeight _ _ items) < _ at hbound
          exact Nat.add_le_add (hitem (by omega)) (ihItems hrest (by omega))
  | object members ih =>
      change _ + membersWeight _ _ members < _ at hbound
      have hlist : membersWeight detectors.sensitive (findingWeights detectors)
            (rewriteMembers detectors members seq) ≤
          membersWeight detectors.sensitive (findingWeights detectors) members := by
        induction members generalizing seq with
        | nil => exact le_rfl
        | cons member members ihMembers =>
            rcases List.forall_mem_cons.mp ih with ⟨hmember, hrest⟩
            rw [membersWeight_keys] at hbound
            rw [rewriteMembers, findings_members]
            by_cases hsensitive : detectors.sensitive member.1
            · rw [if_pos hsensitive] at hbound
              rw [if_pos hsensitive, if_pos hsensitive, findings_members, if_pos hsensitive]
              exact Nat.add_le_add_left (ihMembers hrest (by omega)) 1
            · rw [if_neg hsensitive] at hbound
              rw [if_neg hsensitive, if_neg hsensitive]
              by_cases hdata : isSensitiveKeyData detectors member.1
              · rw [if_pos hdata] at hbound
                have hplaceholder : ¬isSensitiveKeyData detectors (keyPlaceholder (seq + 1)) :=
                  fun hdata ↦ isSensitiveKeyData_iff.mp hdata
                    (classifyScalar_placeholder hpass (by omega))
                have hname : ¬detectors.sensitive (keyPlaceholder (seq + 1)) := by
                  simp [sensitiveFieldName_placeholder hascii]
                have hvalue := @hmember (seq + 1) (by omega)
                have hothers := @ihMembers hrest (seq + 1 + member.2.dynamicKeys detectors)
                  (by omega)
                rw [if_pos hdata, if_pos hdata, findings_members, if_neg hname,
                  if_neg hplaceholder]
                dsimp only
                omega
              · rw [if_neg hdata] at hbound
                have hvalue := @hmember seq (by omega)
                have hothers := @ihMembers hrest (seq + member.2.dynamicKeys detectors) (by omega)
                rw [if_neg hdata, if_neg hdata, findings_members, if_neg hsensitive, if_neg hdata]
                dsimp only
                omega
      exact (membersWeight_collectMap_le _).trans hlist

end

/-- Renamed keys are findings, so their number is within the budget. -/
theorem dynamicKeys_le_findings (detectors : Detectors) (value : Value) :
    value.dynamicKeys detectors ≤ value.findings detectors :=
  @weight_mono detectors.sensitive (keyWeights detectors) (findingWeights detectors)
    (fun _ ↦ Nat.zero_le _) (fun _ ↦ Nat.zero_le _) (Nat.zero_le _) (fun _ ↦ le_rfl) value

theorem Document.ext {left right : Document} (hvalue : left.value = right.value) :
    left = right := by
  cases left
  cases right
  cases hvalue
  rfl

/-- A redaction that keeps the document is sound exactly when no key clashes with a placeholder and
the document is covered. -/
theorem redact_sound_iff (detectors : Detectors) (hpass : detectors.PassMarks)
    (hascii : detectors.folding.AgreesOnAscii) (cfg : DlpConfig) (document : Document)
    (hkept : (redact detectors cfg document).dropped = none) :
    Sound detectors cfg document.value (redact detectors cfg document).document ↔
      NoClash detectors document.value 0 ∧ Covered detectors document.value := by
  rcases redact_dropped_iff.mp hkept with ⟨hfindings, hnesting⟩
  have hvalue := redact_value hkept
  have hbound : 0 + document.value.dynamicKeys detectors < 2 ^ 32 := by
    have hkeys := dynamicKeys_le_findings detectors document.value
    have hmax := cfg.maxFindings_lt
    omega
  constructor
  · intro hsound
    have hcount := hsound.framed.count_eq
    have hclean := hsound.clean
    rw [hvalue] at hcount hclean
    have hfree := (count_rewrite hpass document.value document.sorted hbound).2 hcount
    exact ⟨hfree, covered_of_clean hpass document.value document.sorted hbound hfree hclean⟩
  · rintro ⟨hfree, hcovered⟩
    have hsettled := settled_rewrite hpass hascii document.value hbound hcovered
    have hagain : (redact detectors cfg (redact detectors cfg document).document).dropped =
        none := by
      rw [redact_dropped_iff, hvalue]
      exact ⟨(findings_rewrite_le hpass hascii document.value hbound).trans hfindings,
        (nesting_rewrite_le document.value).trans hnesting⟩
    constructor
    · rw [hvalue]
      exact framed_rewrite hpass document.value document.sorted hbound hfree
    · rw [hvalue]
      exact hsettled.clean
    · refine ⟨hagain, Document.ext ?_⟩
      rw [redact_value hagain, hvalue]
      exact hsettled.rewrite_eq 0

/-- An access key id and a mail address are recognized by a part of them. -/
def sampleDetectors : Detectors where
  folding := .ascii
  secretPatterns text := decide ("AKIA".toList <:+: text.toList)
  email text := decide ('@' ∈ text.toList)
  shannonAtLeast _ _ := false

def sampleCfg : DlpConfig := ⟨40, 32, by decide⟩

theorem sampleDetectors_passMarks : sampleDetectors.PassMarks := by
  constructor
  · decide +kernel
  · intro number _
    have hdigits : ∀ char ∈ Nat.toDigits 10 number, char ≠ 'I' ∧ char ≠ '@' := by
      intro char hchar
      have hdigit := isDigit_of_mem_digits hchar
      constructor
      · rintro rfl
        exact absurd hdigit (by decide)
      · rintro rfl
        exact absurd hdigit (by decide)
    have hprefix : ∀ char ∈ "[REDACTED_KEY_".toList, char ≠ 'I' ∧ char ≠ '@' := by
      have hall : "[REDACTED_KEY_".toList.all (fun char ↦ char ≠ 'I' ∧ char ≠ '@') = true := by
        decide
      simpa only [List.all_eq_true, decide_eq_true_eq] using hall
    have hchars : ∀ char ∈ (keyPlaceholder number).toList, char ≠ 'I' ∧ char ≠ '@' := by
      intro char hchar
      rw [toList_keyPlaceholder] at hchar
      rcases List.mem_append.mp hchar with hchar | hchar
      · exact hprefix char hchar
      · rcases List.mem_append.mp hchar with hchar | hchar
        · exact hdigits char hchar
        · rw [List.mem_singleton.mp hchar]
          decide
    constructor
    · refine decide_eq_false fun hfound ↦ ?_
      exact (hchars 'I' (hfound.subset (by decide))).1 rfl
    · exact decide_eq_false fun hmem ↦ (hchars '@' hmem).2 rfl

theorem ascii_agreesOnAscii : Folding.ascii.AgreesOnAscii :=
  ⟨fun _ _ ↦ rfl, fun _ _ ↦ rfl, fun _ _ ↦ rfl⟩

/-- A mail address as a key, beside a sensitive name. -/
def sampleDocument : Document :=
  ⟨.object [("a@b.co", .string "AKIA"), ("pwd", .null)], .object (by decide +kernel) (by
    rintro _ (_ | ⟨_, _ | ⟨_, ⟨⟩⟩⟩)
    · exact .string _
    · exact .null)⟩

theorem redact_sound_sample :
    Sound sampleDetectors sampleCfg sampleDocument.value
      (redact sampleDetectors sampleCfg sampleDocument).document := by
  apply (redact_sound_iff sampleDetectors sampleDetectors_passMarks ascii_agreesOnAscii sampleCfg
    sampleDocument (by decide +kernel)).mpr
  constructor
  · constructor
    · decide +kernel
    · simp [NoClashMembers, NoClash]
  · refine .object (by decide +kernel) ?_
    rintro _ (_ | ⟨_, _ | ⟨_, ⟨⟩⟩⟩) -
    · exact .string _
    · exact .null

/-- A key that looks like the first placeholder, after a key that gets it. -/
def clashingDocument : Document :=
  ⟨.object [("A@b.co", .null), ("[REDACTED_KEY_1]", .null)], .object (by decide +kernel) (by
    rintro _ (_ | ⟨_, _ | ⟨_, ⟨⟩⟩⟩)
    · exact .null
    · exact .null)⟩

/-- A mail address in a sensitive name. -/
def namedDocument : Document :=
  ⟨.object [("pwd a@b.co", .null)], .object (by decide +kernel) (by
    rintro _ (_ | ⟨_, ⟨⟩⟩)
    exact .null)⟩

/-- One of two members is lost, and an address in a sensitive name is kept. -/
theorem redact_not_sound :
    ((redact sampleDetectors sampleCfg clashingDocument).dropped = none ∧
      ¬Sound sampleDetectors sampleCfg clashingDocument.value
        (redact sampleDetectors sampleCfg clashingDocument).document) ∧
    (redact sampleDetectors sampleCfg namedDocument).dropped = none ∧
      ¬Sound sampleDetectors sampleCfg namedDocument.value
        (redact sampleDetectors sampleCfg namedDocument).document := by
  refine ⟨⟨by decide +kernel, fun hsound ↦ ?_⟩, by decide +kernel, fun hsound ↦ ?_⟩
  · exact absurd hsound.framed.count_eq (by decide +kernel)
  · have hclean : CleanValue sampleDetectors
        (.object [("pwd a@b.co", .string markSensitiveName)]) := hsound.clean
    rcases hclean with _ | _ | _ | _ | _ | ⟨hkeys, -⟩
    exact absurd (hkeys _ List.mem_cons_self) (by decide +kernel)

end Deblob.Dlp
