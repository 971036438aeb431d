import Deblob.Fingerprint.Positions
import Deblob.Fingerprint.ValueGrammar

/-!
# What the parser accepts, exactly

A document denotes one tree at most: with limits wide enough for two of them, the reader returns
both. The parser at its positions returns the node of that tree if the tree is within the limits,
and its two walks over a value end at the same position.
-/

namespace Deblob.Fingerprint

open Core Lib
open Lib.Json (Tree)

/-! ## One tree -/

mutual

theorem ofTree_injective : (tree other : Tree) → Node.ofTree tree = Node.ofTree other →
    tree = other
  | .array items, .array others, hsame => by
    rw [nodesOfItems_injective items others (Node.array.inj hsame).1]
  | .object members, .object others, hsame => by
    rw [nodesOfMembers_injective members others (Node.object.inj hsame)]
  | .null, .null, _ => rfl
  | .bool _, .bool _, hsame => by rw [Node.bool.inj hsame]
  | .number _, .number _, hsame => by rw [Node.number.inj hsame]
  | .string _, .string _, hsame => by rw [Node.string.inj hsame]

theorem nodesOfItems_injective : (items others : List Tree) →
    nodesOfItems items = nodesOfItems others → items = others
  | [], [], _ => rfl
  | item :: items, other :: others, hsame => by
    obtain ⟨hitem, hitems⟩ := List.cons.inj hsame
    rw [ofTree_injective item other hitem, nodesOfItems_injective items others hitems]

theorem nodesOfMembers_injective : (members others : List (String × Tree)) →
    nodesOfMembers members = nodesOfMembers others → members = others
  | [], [], _ => rfl
  | (key, value) :: members, (name, other) :: others, hsame => by
    obtain ⟨hmember, hmembers⟩ := List.cons.inj hsame
    obtain ⟨rfl, hvalue⟩ := Prod.mk.inj hmember
    rw [ofTree_injective value other hvalue, nodesOfMembers_injective members others hmembers]

end

/-- The same limit on everything. -/
def Limits.wide (size : ℕ) : Limits where
  maxBytes := size
  maxDepth := size
  maxFieldsPerObject := size
  maxKeyLen := size
  maxStringLen := size
  maxArrayInspect := size

mutual

/-- Every tree is within limits that are wide enough. -/
theorem exists_sized : (tree : Tree) →
    ∃ size, ∀ wide levels, size ≤ wide → size ≤ levels → Sized (.wide wide) levels tree
  | .null => ⟨0, fun _ _ _ _ ↦ .null⟩
  | .bool value => ⟨0, fun _ _ _ _ ↦ .bool value⟩
  | .number text => ⟨0, fun _ _ _ _ ↦ .number text⟩
  | .string text => ⟨text.utf8ByteSize, fun _ _ hwide _ ↦ .string hwide⟩
  | .array items => by
    rcases exists_sized_items items with ⟨size, hitems⟩
    refine ⟨size + 1, fun wide levels hwide hlevels ↦ ?_⟩
    obtain ⟨levels, rfl⟩ := Nat.exists_eq_succ_of_ne_zero (Nat.ne_of_gt (Nat.lt_of_lt_of_le
      (Nat.succ_pos size) hlevels))
    exact .array (hitems wide levels (by omega) (by omega))
  | .object members => by
    rcases exists_sized_members members with ⟨size, hmembers⟩
    refine ⟨size + 1, fun wide levels hwide hlevels ↦ ?_⟩
    obtain ⟨levels, rfl⟩ := Nat.exists_eq_succ_of_ne_zero (Nat.ne_of_gt (Nat.lt_of_lt_of_le
      (Nat.succ_pos size) hlevels))
    have hinner := hmembers wide levels (by omega) (by omega)
    exact .object (fun member hmember ↦ (hinner member hmember).1)
      fun member hmember ↦ (hinner member hmember).2

theorem exists_sized_items : (items : List Tree) →
    ∃ size, ∀ wide levels, size ≤ wide → size ≤ levels →
      ∀ item ∈ items, Sized (.wide wide) levels item
  | [] => ⟨0, fun _ _ _ _ ↦ List.forall_mem_nil _⟩
  | item :: items => by
    rcases exists_sized item with ⟨first, hitem⟩
    rcases exists_sized_items items with ⟨size, hitems⟩
    refine ⟨max first size, fun wide levels hwide hlevels ↦ List.forall_mem_cons.mpr ⟨?_, ?_⟩⟩
    · exact hitem wide levels (by omega) (by omega)
    · exact hitems wide levels (by omega) (by omega)

theorem exists_sized_members : (members : List (String × Tree)) →
    ∃ size, ∀ wide levels, size ≤ wide → size ≤ levels → ∀ member ∈ members,
      member.1.utf8ByteSize ≤ (Limits.wide wide).maxKeyLen ∧ Sized (.wide wide) levels member.2
  | [] => ⟨0, fun _ _ _ _ ↦ List.forall_mem_nil _⟩
  | (key, value) :: members => by
    rcases exists_sized value with ⟨first, hvalue⟩
    rcases exists_sized_members members with ⟨size, hmembers⟩
    refine ⟨max key.utf8ByteSize (max first size), fun wide levels hwide hlevels ↦
      List.forall_mem_cons.mpr ⟨⟨?_, ?_⟩, ?_⟩⟩
    · change key.utf8ByteSize ≤ wide
      omega
    · exact hvalue wide levels (by omega) (by omega)
    · exact hmembers wide levels (by omega) (by omega)

end

/-- A document denotes at most one tree. -/
theorem Denotes.unique {bytes : List UInt8} {tree other : Tree} (htree : Denotes bytes tree)
    (hother : Denotes bytes other) : tree = other := by
  obtain ⟨size, hsized⟩ := exists_sized tree
  obtain ⟨otherSize, hotherSized⟩ := exists_sized other
  obtain ⟨wide, hwide⟩ : ∃ wide, wide = max bytes.length (max size otherSize) := ⟨_, rfl⟩
  have hread {tree : Tree} (htree : Denotes bytes tree) (hsized : Sized (.wide wide) wide tree) :
      readDocument (.wide wide) bytes = .ok (.ofTree tree) := by
    refine readDocument_eq_ok.mpr ⟨?_, tree, htree, hsized, rfl⟩
    change bytes.length ≤ wide
    omega
  have hfirst := hread htree (hsized wide wide (by omega) (by omega))
  have hsecond := hread hother (hotherSized wide wide (by omega) (by omega))
  exact ofTree_injective tree other (Except.ok.inj (hfirst.symm.trans hsecond))

/-! ## Positions -/

/-- What is parsed is skipped, up to the same bytes. -/
theorem skipValue_of_parseValue {limits : Limits} {levels : ℕ} {rest left : List UInt8}
    {node : Node} (hparse : parseValue limits levels rest = .ok (node, left)) :
    skipValue limits levels rest = .ok ((), left) := by
  rcases (parseValue_restricts limits levels).sound rest node left hparse with ⟨doc, hread, -⟩
  rcases (skipValue_restricts limits levels).complete rest doc left hread ⟨(), trivial⟩ with
    ⟨⟨⟩, hskip, -⟩
  exact hskip

namespace Input

open Lib.Scanner (position drop_position)

/-- Both walks over a value go on from the same position, which is in the input. -/
theorem skipValue_of_parseValue {input : Input} {depth pos next : ℕ} {node : Node}
    (hdepth : depth ≤ input.limits.maxDepth) (hpos : pos ≤ input.bytes.length)
    (hparse : input.parseValue input.calls depth pos = .ok (node, next)) :
    pos < next ∧ next ≤ input.bytes.length ∧
      input.skipValue input.calls depth pos = .ok ((), next) := by
  have hcalls : input.limits.maxDepth - depth < input.calls :=
    lt_of_le_of_lt (Nat.sub_le _ _) input.depth_lt
  have hsuffix : input.bytes.drop pos <:+ input.bytes := List.drop_suffix _ _
  have hposition : position input.bytes (input.bytes.drop pos) = pos := by
    rw [position, List.length_drop, Nat.sub_sub_self hpos]
  have hfollows := follows_parseValue hdepth hcalls _ hsuffix
  have hskips := follows_skipValue hdepth hcalls _ hsuffix
  rw [hposition] at hfollows hskips
  cases hrun : Fingerprint.parseValue input.limits (input.limits.maxDepth - depth)
      (input.bytes.drop pos) with
  | error err =>
      rw [hrun] at hfollows
      exact absurd (hparse.symm.trans hfollows) (by simp)
  | ok pair =>
      obtain ⟨other, left⟩ := pair
      rw [hrun] at hfollows
      rw [Fingerprint.skipValue_of_parseValue hrun] at hskips
      obtain ⟨hleft, hsame⟩ := hfollows
      obtain ⟨-, rfl⟩ := Prod.mk.inj (Except.ok.inj (hparse.symm.trans hsame))
      have hshorter := consumes_parseValue _ _ _ _ _ hrun
      have hlength := hleft.length_le
      rw [List.length_drop] at hshorter
      refine ⟨?_, Nat.sub_le _ _, hskips.2⟩
      rw [position]
      omega

/-- The parser reads within its input and ends. Without an array past the inspection cap it returns
the node of a document exactly if the bytes are a JSON text within the limits, and a value it
returns is skipped up to the same position. -/
theorem parse_bounded_exact (input : Input)
    (hcap : ∀ tree, Denotes input.bytes tree → ∀ items ∈ (Node.ofTree tree).arrays,
      items.length ≤ input.limits.maxArrayInspect) :
    (input.parseBounded ≠ .error .outOfBounds ∧ input.parseBounded ≠ .error .endless) ∧
      (∀ node, input.parseBounded = .ok node ↔
        input.bytes.length ≤ input.limits.maxBytes ∧
          ∃ tree, Denotes input.bytes tree ∧ WithinLimits input.limits tree ∧
            node = Node.ofTree tree) ∧
      ∀ depth pos node next, depth ≤ input.limits.maxDepth → pos ≤ input.bytes.length →
        input.parseValue input.calls depth pos = .ok (node, next) →
          pos < next ∧ next ≤ input.bytes.length ∧
            input.skipValue input.calls depth pos = .ok ((), next) := by
  refine ⟨?_, fun node ↦ ?_, fun _ _ _ _ ↦ skipValue_of_parseValue⟩
  · rw [parseBounded_eq]
    cases Fingerprint.parseBounded input.bytes input.limits with
    | error err => exact ⟨by simp [Except.mapError], by simp [Except.mapError]⟩
    | ok node => exact ⟨by simp [Except.mapError], by simp [Except.mapError]⟩
  · rw [parseBounded_eq, ← parseBounded_eq_ok_iff hcap node]
    cases Fingerprint.parseBounded input.bytes input.limits <;> simp [Except.mapError]

/-- An object with an escaped key, a number and a pair of surrogates. -/
def sample : Input where
  bytes := ascii "\x7b\"caf\\u00e9\":[-1.50e3,\"\\ud83d\\ude00\"]\x7d"
  limits := default
  rounds := 64
  calls := 33
  bytes_lt := by decide
  depth_lt := by decide

theorem parse_bounded_exact_sample :
    ∃ tree, Denotes sample.bytes tree ∧ WithinLimits sample.limits tree ∧
      sample.parseBounded = .ok (Node.ofTree tree) := by
  have hread : (readDocument sample.limits sample.bytes).map
      (fun doc ↦ doc.arrays.all (·.length ≤ sample.limits.maxArrayInspect)) = .ok true := by
    decide +kernel
  have hexact := parse_bounded_exact sample (by
    intro tree htree
    cases hdoc : readDocument sample.limits sample.bytes with
    | error err =>
        rw [hdoc] at hread
        cases hread
    | ok doc =>
        rw [hdoc] at hread
        obtain ⟨-, other, hother, -, rfl⟩ := readDocument_eq_ok.mp hdoc
        rw [htree.unique hother]
        simpa using Except.ok.inj hread)
  have haccepted : sample.parseBounded.isOk := by decide +kernel
  obtain ⟨node, hnode⟩ := Except.isOk_iff.mp haccepted
  obtain ⟨-, tree, hdenotes, hwithin, rfl⟩ := (hexact.2.1 node).mp hnode
  exact ⟨tree, hdenotes, hwithin, hnode⟩

end Input

end Deblob.Fingerprint
