import Metafile.Proofs.Bytes.Fields
import Metafile.Record.Reading

/-! Values that are stored as fields. Where the fields of several values stand one behind the
other, the values are read back, and so are lists of them. -/

namespace Metafile

open Bytes (Field)

namespace Layout

variable {α β : Type}

/-- A value is read from the fields that it is stored in, which take as many bytes as the
layout says. -/
structure Stores (l : Layout α) (fields : β → List Field) (value : β → α) (b : β) : Prop where
  width : ((fields b).map Field.width).sum = l.size
  read : ∀ data start, data.HoldsFields start (fields b) → l.read data start = value b

/-- Values behind others are a list of their own, which starts behind the first ones. -/
theorem list_add (l : Layout α) (data : Bytes) (start first second : Nat) :
    l.list data start (first + second) =
      l.list data start first ++ l.list data (start + l.size * first) second := by
  induction first generalizing start with
  | zero => simp [list]
  | succ first ih =>
      have hNext : start + l.size + l.size * first = start + l.size * (first + 1) := by
        rw [Nat.mul_succ]
        omega
      rw [Nat.succ_add, list_succ, ih, list_succ, List.cons_append, hNext]

/-- Lists one behind the other hold each value of the whole stretch once, in its order. -/
theorem flatten_lists (l : Layout α) (data : Bytes) (start : Nat) (counts : List Nat) :
    (l.lists data start counts).flatten = l.list data start (total counts) := by
  induction counts generalizing start with
  | nil => rfl
  | cons count counts ih =>
      have hTotal : total (count :: counts) = count + total counts := rfl
      rw [lists, List.flatten_cons, ih, hTotal, list_add]

variable {l : Layout α} {fields : β → List Field} {value : β → α}

/-- The fields of a list are as wide as the layout is for as many values. -/
theorem width_flatMap {bs : List β} (hStores : ∀ b ∈ bs, l.Stores fields value b) :
    ((bs.flatMap fields).map Field.width).sum = l.size * bs.length := by
  induction bs with
  | nil => rfl
  | cons b rest ih =>
      obtain ⟨hFirst, hRest⟩ := List.forall_mem_cons.1 hStores
      rw [List.flatMap_cons, List.map_append, List.sum_append, hFirst.width, ih hRest,
        List.length_cons, Nat.mul_succ, Nat.add_comm]

/-- Values that are stored one behind the other are read back in their order. The induction is on
the values, with the start moved behind the first one. -/
theorem list_eq {data : Bytes} {start : Nat} {bs : List β}
    (hStores : ∀ b ∈ bs, l.Stores fields value b)
    (hFields : data.HoldsFields start (bs.flatMap fields)) :
    l.list data start bs.length = bs.map value := by
  induction bs generalizing start with
  | nil => rfl
  | cons b rest ih =>
      obtain ⟨hFirst, hRest⟩ := List.forall_mem_cons.1 hStores
      rw [List.flatMap_cons, Bytes.holdsFields_append, hFirst.width] at hFields
      rw [List.length_cons, list_succ, hFirst.read _ _ hFields.1, ih hRest hFields.2, List.map_cons]

/-- So are several lists behind each other if their lengths are known. -/
theorem lists_eq {data : Bytes} {start : Nat} {groups : List (List β)}
    (hStores : ∀ b ∈ groups.flatten, l.Stores fields value b)
    (hFields : data.HoldsFields start (groups.flatten.flatMap fields)) :
    l.lists data start (groups.map List.length) = groups.map (List.map value) := by
  induction groups generalizing start with
  | nil => rfl
  | cons group rest ih =>
      rw [List.flatten_cons] at hStores hFields
      obtain ⟨hFirst, hRest⟩ := List.forall_mem_append.1 hStores
      rw [List.flatMap_append, Bytes.holdsFields_append, width_flatMap hFirst] at hFields
      rw [List.map_cons, lists, list_eq hFirst hFields.1, ih hRest hFields.2, List.map_cons]

end Layout

end Metafile
