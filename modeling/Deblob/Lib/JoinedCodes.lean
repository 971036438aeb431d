import Deblob.Lib.PrefixCode

/-!
# Codes joined with a separator

Codes that read back are told apart when they are joined with a separator that is not empty, up to a
closing symbol with which neither the separator nor a code begins.
-/

namespace Deblob.Lib

variable {α Symbol : Type*}

theorem intercalate_cons_eq (sep first : List Symbol) (rest : List (List Symbol)) :
    sep.intercalate (first :: rest) = first ++ rest.flatMap (sep ++ ·) := by
  induction rest generalizing first with
  | nil => simp
  | cons second rest ih =>
      rw [List.intercalate_cons_cons, ih, List.flatMap_cons, List.append_assoc, List.append_assoc]

namespace ReadsBackOn

variable {dom : α → Prop} {enc : α → List Symbol}

/-- A literal in front of every code. -/
theorem prefixed (henc : ReadsBackOn dom enc) (literal : List Symbol) :
    ReadsBackOn dom fun value ↦ literal ++ enc value := by
  intro value other hvalue hother rest left heq
  rw [List.append_assoc, List.append_assoc] at heq
  exact henc value other hvalue hother rest left (List.append_cancel_left heq)

/-- The codes of values up to a symbol with which no code begins. -/
theorem closed (henc : ReadsBackOn dom enc) {close : Symbol}
    (hopen : ∀ value, dom value → ∀ rest left, enc value ++ rest ≠ close :: left)
    {values others : List α} (hvalues : ∀ value ∈ values, dom value)
    (hothers : ∀ other ∈ others, dom other) {rest left : List Symbol}
    (heq : values.flatMap enc ++ close :: rest = others.flatMap enc ++ close :: left) :
    values = others ∧ rest = left := by
  induction values generalizing others with
  | nil =>
      cases others with
      | nil => exact ⟨rfl, (List.cons.inj heq).2⟩
      | cons other others =>
          rw [List.flatMap_nil, List.nil_append, List.flatMap_cons, List.append_assoc] at heq
          exact absurd heq.symm (hopen other (hothers other List.mem_cons_self) _ _)
  | cons value values ih =>
      rw [List.forall_mem_cons] at hvalues
      cases others with
      | nil =>
          rw [List.flatMap_nil, List.nil_append, List.flatMap_cons, List.append_assoc] at heq
          exact absurd heq (hopen value hvalues.1 _ _)
      | cons other others =>
          rw [List.forall_mem_cons] at hothers
          rw [List.flatMap_cons, List.flatMap_cons, List.append_assoc, List.append_assoc] at heq
          obtain ⟨rfl, htail⟩ := henc value other hvalues.1 hothers.1 _ _ heq
          obtain ⟨rfl, hrest⟩ := ih hvalues.2 hothers.2 htail
          exact ⟨rfl, hrest⟩

/-- Joined codes are read back up to a closing symbol. -/
theorem joined (henc : ReadsBackOn dom enc) {sep : List Symbol} {close : Symbol}
    (hsep : sep ≠ []) (hclose : close ∉ sep.head?)
    (hopen : ∀ value, dom value → ∀ rest left, enc value ++ rest ≠ close :: left)
    {values others : List α} (hvalues : ∀ value ∈ values, dom value)
    (hothers : ∀ other ∈ others, dom other) {rest left : List Symbol}
    (heq : sep.intercalate (values.map enc) ++ close :: rest =
      sep.intercalate (others.map enc) ++ close :: left) : values = others ∧ rest = left := by
  obtain ⟨head, tail, rfl⟩ := List.exists_cons_of_ne_nil hsep
  have hhead (value : α) (rest left : List Symbol) :
      (head :: tail ++ enc value) ++ rest ≠ close :: left := fun hcons ↦
    hclose (congrArg some (List.cons.inj hcons).1)
  cases values with
  | nil =>
      cases others with
      | nil => exact ⟨rfl, by simpa using heq⟩
      | cons other others =>
          rw [List.map_nil, List.intercalate_nil, List.nil_append, List.map_cons,
            intercalate_cons_eq, List.append_assoc] at heq
          exact absurd heq.symm (hopen other (hothers other List.mem_cons_self) _ _)
  | cons value values =>
      rw [List.forall_mem_cons] at hvalues
      cases others with
      | nil =>
          rw [List.map_nil, List.intercalate_nil, List.nil_append, List.map_cons,
            intercalate_cons_eq, List.append_assoc] at heq
          exact absurd heq (hopen value hvalues.1 _ _)
      | cons other others =>
          rw [List.forall_mem_cons] at hothers
          rw [List.map_cons, List.map_cons, intercalate_cons_eq, intercalate_cons_eq,
            List.append_assoc, List.append_assoc, List.flatMap_map, List.flatMap_map] at heq
          obtain ⟨rfl, htail⟩ := henc value other hvalues.1 hothers.1 _ _ heq
          obtain ⟨rfl, hrest⟩ := (henc.prefixed (head :: tail)).closed
            (fun value _ ↦ hhead value) hvalues.2 hothers.2 htail
          exact ⟨rfl, hrest⟩

/-- Joining does not confuse lists of codes. -/
theorem intercalate_inj (henc : ReadsBackOn dom enc) {sep : List Symbol} {close : Symbol}
    (hsep : sep ≠ []) (hclose : close ∉ sep.head?)
    (hopen : ∀ value, dom value → ∀ rest left, enc value ++ rest ≠ close :: left)
    {values others : List α} (hvalues : ∀ value ∈ values, dom value)
    (hothers : ∀ other ∈ others, dom other)
    (heq : sep.intercalate (values.map enc) = sep.intercalate (others.map enc)) :
    values = others := by
  have hclosed : sep.intercalate (values.map enc) ++ [close] =
      sep.intercalate (others.map enc) ++ [close] := by rw [heq]
  exact (henc.joined hsep hclose hopen hvalues hothers hclosed).1

end ReadsBackOn

end Deblob.Lib
