import Mathlib.Data.List.Induction
import Mathlib.Data.List.Nodup

/-!
# Rows grouped by a key

`groups key l` are the rows of each key, by keys in the order they first appear: what a dictionary
of lists ends as that is filled row by row (`groups_eq_foldl`).
-/

namespace PaaRuntime.Grouping

variable {α κ : Type} [DecidableEq κ] {key : α → κ} {l : List α} {g : κ × List α}

/-- The rows of each key, by keys in the order they first appear. -/
def groups (key : α → κ) (l : List α) : List (κ × List α) :=
  (l.map key).eraseDups.map fun k => (k, l.filter (key · = k))

/-- Append a row to the list of its key, which starts empty. -/
def addRow (key : α → κ) (d : List (κ × List α)) (a : α) : List (κ × List α) :=
  if ∃ g ∈ d, g.1 = key a then d.map fun g => if g.1 = key a then (g.1, g.2 ++ [a]) else g
  else d ++ [(key a, [a])]

theorem eraseDups_concat_of_mem {l : List κ} {k : κ} (h : k ∈ l) :
    (l ++ [k]).eraseDups = l.eraseDups := by
  rw [List.eraseDups_append]
  simp [List.removeAll, h]

theorem eraseDups_concat_of_not_mem {l : List κ} {k : κ} (h : k ∉ l) :
    (l ++ [k]).eraseDups = l.eraseDups ++ [k] := by
  rw [List.eraseDups_append]
  simp [List.removeAll, h, List.eraseDups_cons]

theorem nodup_eraseDups (l : List κ) : l.eraseDups.Nodup := by
  induction l using List.reverseRecOn with
  | nil => exact List.nodup_nil
  | append_singleton l k ih =>
    by_cases hk : k ∈ l
    · rwa [eraseDups_concat_of_mem hk]
    · rw [eraseDups_concat_of_not_mem hk, List.nodup_append_comm]
      exact List.nodup_cons.2 ⟨fun h => hk (List.mem_eraseDups.1 h), ih⟩

theorem map_fst_groups (key : α → κ) (l : List α) :
    (groups key l).map (·.1) = (l.map key).eraseDups := by
  unfold groups
  rw [List.map_map]
  exact List.map_id _

/-- Each key has one group. -/
theorem nodup_keys (key : α → κ) (l : List α) : ((groups key l).map (·.1)).Nodup := by
  rw [map_fst_groups]
  exact nodup_eraseDups _

theorem mem_keys {k : κ} : k ∈ (groups key l).map (·.1) ↔ ∃ a ∈ l, key a = k := by
  rw [map_fst_groups, List.mem_eraseDups, List.mem_map]

/-- The groups are the keys that occur, each with all its rows. -/
theorem mem_groups :
    g ∈ groups key l ↔ (∃ a ∈ l, key a = g.1) ∧ g.2 = l.filter (key · = g.1) := by
  unfold groups
  rw [List.mem_map]
  constructor
  · rintro ⟨k, hk, rfl⟩
    exact ⟨List.mem_map.1 (List.mem_eraseDups.1 hk), rfl⟩
  · rintro ⟨hk, hrows⟩
    exact ⟨g.1, List.mem_eraseDups.2 (List.mem_map.2 hk), Prod.ext rfl hrows.symm⟩

theorem filter_concat_of_eq (l : List α) {a : α} {k : κ} (h : key a = k) :
    (l ++ [a]).filter (key · = k) = l.filter (key · = k) ++ [a] := by
  rw [List.filter_append, List.filter_cons, if_pos (by simpa using h), List.filter_nil]

theorem filter_concat_of_ne (l : List α) {a : α} {k : κ} (h : key a ≠ k) :
    (l ++ [a]).filter (key · = k) = l.filter (key · = k) := by
  rw [List.filter_append, List.filter_cons, if_neg (by simpa using h), List.filter_nil,
    List.append_nil]

/-- One more row goes to the group of its key. -/
theorem groups_concat (key : α → κ) (l : List α) (a : α) :
    groups key (l ++ [a]) = addRow key (groups key l) a := by
  have hknown : (∃ g ∈ groups key l, g.1 = key a) ↔ key a ∈ l.map key := by
    rw [← List.mem_eraseDups, ← map_fst_groups, List.mem_map]
  unfold addRow
  by_cases ha : key a ∈ l.map key
  · rw [if_pos (hknown.2 ha)]
    unfold groups
    rw [List.map_append, List.map_singleton, eraseDups_concat_of_mem ha, List.map_map]
    apply List.map_congr_left
    intro k _
    show (k, (l ++ [a]).filter (key · = k)) = if k = key a then _ else _
    by_cases hk : k = key a
    · rw [if_pos hk, filter_concat_of_eq l hk.symm]
    · rw [if_neg hk, filter_concat_of_ne l (Ne.symm hk)]
  · rw [if_neg fun h => ha (hknown.1 h)]
    unfold groups
    rw [List.map_append, List.map_singleton, eraseDups_concat_of_not_mem ha, List.map_append]
    congr 1
    · apply List.map_congr_left
      intro k hk
      rw [filter_concat_of_ne]
      rintro rfl
      exact ha (List.mem_eraseDups.1 hk)
    · have hnone : l.filter (key · = key a) = [] := List.filter_eq_nil_iff.2 fun b hb => by
        simpa using fun hkey => ha (List.mem_map.2 ⟨b, hb, hkey⟩)
      rw [List.map_singleton, filter_concat_of_eq l rfl, hnone, List.nil_append]

theorem groups_eq_foldl (key : α → κ) (l : List α) : groups key l = l.foldl (addRow key) [] := by
  induction l using List.reverseRecOn with
  | nil => rfl
  | append_singleton l a ih =>
    rw [groups_concat, List.foldl_append, ih, List.foldl_cons, List.foldl_nil]

omit [DecidableEq κ] in
/-- What a partial map makes of a list keeps the keys it keeps in their order. -/
theorem sublist_keys {β : Type} {f : α → Option β} {key' : β → κ}
    (h : ∀ a ∈ l, ∀ b ∈ f a, key' b = key a) :
    ((l.filterMap f).map key').Sublist (l.map key) := by
  induction l with
  | nil => exact .slnil
  | cons a l ih =>
    have hrest := ih fun b hb => h b (List.mem_cons_of_mem _ hb)
    rw [List.filterMap_cons, List.map_cons]
    rcases hf : f a with _ | b
    · exact hrest.cons _
    · rw [List.map_cons, h a List.mem_cons_self b hf]
      exact hrest.cons_cons _

end PaaRuntime.Grouping
