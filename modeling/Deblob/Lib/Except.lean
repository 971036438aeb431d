import Mathlib.Data.List.Forall2

/-!
# Inverting fallible computations

A bind that succeeded splits into its two successful halves, so a proof about a successful run
peels it apart without unfolding the monad.
-/

namespace Deblob.Lib

universe u

variable {Err : Type*} {α β γ δ : Type u}

theorem Except.bind_eq_ok {first : Except Err α} {rest : α → Except Err β} {result : β} :
    (first >>= rest) = .ok result ↔ ∃ value, first = .ok value ∧ rest value = .ok result := by
  cases first with
  | error err => simp [bind, Except.bind]
  | ok value => simp [bind, Except.bind]

theorem Except.map_eq_ok {result : Except Err α} {change : α → β} {value : β} :
    result.map change = .ok value ↔ ∃ inner, result = .ok inner ∧ change inner = value := by
  cases result <;> simp [Except.map]

theorem Except.isOk_iff {result : Except Err α} :
    result.isOk = true ↔ ∃ value, result = .ok value := by
  cases result <;> simp [Except.isOk, Except.toBool]

/-- A check in front of a computation. -/
theorem Except.check_bind_eq_ok {check : Except Err PUnit} {rest : Except Err β} {result : β} :
    (check >>= fun _ ↦ rest) = .ok result ↔ check = .ok ⟨⟩ ∧ rest = .ok result := by
  rw [Except.bind_eq_ok]
  constructor
  · rintro ⟨⟨⟩, hcheck, hrest⟩
    exact ⟨hcheck, hrest⟩
  · rintro ⟨hcheck, hrest⟩
    exact ⟨⟨⟩, hcheck, hrest⟩

/-- A check over a list passes exactly if every element does. -/
theorem Except.forM_eq_ok {check : α → Except Err PUnit} {items : List α} :
    items.forM check = .ok ⟨⟩ ↔ ∀ item ∈ items, check item = .ok ⟨⟩ := by
  induction items with
  | nil => simp [List.forM, pure, Except.pure]
  | cons item items ih =>
      rw [List.forall_mem_cons, ← ih, List.forM, Except.check_bind_eq_ok]

/-- A map over a list succeeds if it does for every element. -/
theorem Except.mapM_forall₂ {map : α → Except Err β} {related : α → β → Prop} {items : List α}
    (hitems : ∀ item ∈ items, ∃ mapped, map item = .ok mapped ∧ related item mapped) :
    ∃ results, items.mapM map = .ok results ∧ List.Forall₂ related items results := by
  induction items with
  | nil => exact ⟨[], rfl, .nil⟩
  | cons item items ih =>
      obtain ⟨⟨mapped, hmapped, hrelated⟩, hrest⟩ := List.forall_mem_cons.mp hitems
      obtain ⟨results, hresults, hall⟩ := ih hrest
      refine ⟨mapped :: results, ?_, .cons hrelated hall⟩
      rw [List.mapM_cons, hmapped, hresults]
      rfl

theorem Except.mapM_ok {map : α → Except Err β} {P : β → Prop} {items : List α}
    (hitems : ∀ item ∈ items, ∃ mapped, map item = .ok mapped ∧ P mapped) :
    ∃ results, items.mapM map = .ok results ∧ ∀ result ∈ results, P result := by
  obtain ⟨results, hresults, hall⟩ := Except.mapM_forall₂ hitems
  refine ⟨results, hresults, ?_⟩
  clear hitems hresults
  induction hall with
  | nil => simp
  | cons hmapped _ ih => exact List.forall_mem_cons.mpr ⟨hmapped, ih⟩

theorem Except.mapM_eq_ok_iff {map : α → Except Err β} {items : List α} {results : List β} :
    items.mapM map = .ok results ↔
      List.Forall₂ (fun item result ↦ map item = .ok result) items results := by
  induction items generalizing results with
  | nil =>
      rw [List.forall₂_nil_left_iff, List.mapM_nil]
      exact ⟨fun heq ↦ (Except.ok.inj heq).symm, fun heq ↦ congrArg Except.ok heq.symm⟩
  | cons item items ih =>
      rw [List.mapM_cons, Except.bind_eq_ok, List.forall₂_cons_left_iff]
      refine exists_congr fun result ↦ ?_
      rw [Except.bind_eq_ok]
      constructor
      · rintro ⟨hresult, rest, hrest, heq⟩
        exact ⟨rest, hresult, ih.mp hrest, (Except.ok.inj heq).symm⟩
      · rintro ⟨rest, hresult, hrest, rfl⟩
        exact ⟨hresult, rest, ih.mpr hrest, rfl⟩

/-- Two maps in a row succeed if the one map by both does. -/
theorem Except.mapM_bind_eq_ok {first : α → Except Err β} {second : β → Except Err γ}
    {items : List α} {results : List γ} :
    items.mapM (fun item ↦ first item >>= second) = .ok results ↔
      ∃ middle, items.mapM first = .ok middle ∧ middle.mapM second = .ok results := by
  simp only [Except.mapM_eq_ok_iff, Except.bind_eq_ok]
  induction items generalizing results with
  | nil => simp
  | cons item items ih =>
      rw [List.forall₂_cons_left_iff]
      constructor
      · rintro ⟨result, rest, ⟨value, hvalue, hresult⟩, hrest, rfl⟩
        obtain ⟨middle, hmiddle, hsecond⟩ := ih.mp hrest
        exact ⟨value :: middle, .cons hvalue hmiddle, .cons hresult hsecond⟩
      · rintro ⟨_, hfirst, hsecond⟩
        obtain ⟨value, middle, hvalue, hmiddle, rfl⟩ := List.forall₂_cons_left_iff.mp hfirst
        obtain ⟨result, rest, hresult, hrest, rfl⟩ := List.forall₂_cons_left_iff.mp hsecond
        exact ⟨result, rest, ⟨value, hvalue, hresult⟩, ih.mpr ⟨middle, hmiddle, hrest⟩, rfl⟩

/-- A map that commutes with a change of the elements. -/
theorem Except.mapM_map {change : α → γ} {changeResult : β → δ} {map : α → Except Err β}
    {changed : γ → Except Err δ} {items : List α}
    (hchange : ∀ item ∈ items, changed (change item) = (map item).map changeResult) :
    (items.map change).mapM changed = (items.mapM map).map (List.map changeResult) := by
  induction items with
  | nil => rfl
  | cons item items ih =>
      rw [List.forall_mem_cons] at hchange
      rw [List.map_cons, List.mapM_cons, List.mapM_cons, hchange.1, ih hchange.2]
      cases map item with
      | error err => rfl
      | ok result => cases items.mapM map <;> rfl

/-- A map over a list that succeeded gave for every element what `value` says it can only give. -/
theorem Except.map_of_mapM_ok {map : α → Except Err β} {value : α → β} {items : List α}
    {results : List β} (hmap : items.mapM map = .ok results)
    (hvalue : ∀ item ∈ items, ∀ result, map item = .ok result → result = value item) :
    results = items.map value ∧ ∀ item ∈ items, map item = .ok (value item) := by
  induction items generalizing results with
  | nil =>
      cases hmap
      exact ⟨rfl, by simp⟩
  | cons item items ih =>
      rw [List.forall_mem_cons] at hvalue
      rw [List.mapM_cons] at hmap
      obtain ⟨first, hfirst, hmap⟩ := Except.bind_eq_ok.mp hmap
      obtain ⟨rest, hrest, hmap⟩ := Except.bind_eq_ok.mp hmap
      cases hmap
      obtain rfl := hvalue.1 first hfirst
      obtain ⟨rfl, hall⟩ := ih hrest hvalue.2
      exact ⟨rfl, List.forall_mem_cons.mpr ⟨hfirst, hall⟩⟩

/-- The same for a map that also sees the positions. -/
theorem Except.map_of_mapM_zipIdx_ok {map : α → ℕ → Except Err β} {value : α → β} {items : List α}
    {results : List β} (hmap : items.zipIdx.mapM (fun (item, index) ↦ map item index) = .ok results)
    (hvalue : ∀ item ∈ items, ∀ index result, map item index = .ok result →
      result = value item) :
    results = items.map value ∧ ∀ item ∈ items, ∃ index, map item index = .ok (value item) := by
  have hmem {item : α} {index : ℕ} (hitem : (item, index) ∈ items.zipIdx) : item ∈ items :=
    List.fst_mem_of_mem_zipIdx hitem
  obtain ⟨hresults, hall⟩ := @Except.map_of_mapM_ok _ _ _ _ (fun pair ↦ value pair.1) _ _ hmap
    fun pair hpair result hresult ↦ hvalue pair.1 (hmem hpair) pair.2 result hresult
  refine ⟨?_, fun item hitem ↦ ?_⟩
  · calc results = (items.zipIdx.map Prod.fst).map value := by rw [hresults, List.map_map]; rfl
      _ = items.map value := by rw [List.zipIdx_map_fst]
  · obtain ⟨index, hindex, hget⟩ := List.getElem_of_mem hitem
    exact ⟨index, hall (item, index) (List.mk_mem_zipIdx_iff_getElem?.mpr
      (hget ▸ List.getElem?_eq_getElem hindex))⟩

end Deblob.Lib
