import Mathlib.Data.List.Basic
import Mathlib.Data.List.Nodup

/-! # Lists with keys

Loops that search an array for a key and update or remove the element they stop
at. When the keys are distinct, such a loop updates or removes the elements with
that key. -/

namespace RaspberryPi

def updateFirst {α : Type u} (found : α → Bool) (update : α → α) (list : List α) : List α :=
  match list.findIdx? found with
  | some index => list.modify index update
  | none => list

variable {α : Type u} {β : Type v}

theorem map_modify (project : α → β) (update : α → α) (image : β → β)
    (commutes : ∀ value, project (update value) = image (project value))
    (list : List α) (index : Nat) :
    (list.modify index update).map project = (list.map project).modify index image := by
  apply List.ext_getElem?
  intro position
  simp only [List.getElem?_map, List.getElem?_modify]
  by_cases here : index = position
  · cases list[position]? <;> simp [here, commutes]
  · cases list[position]? <;> simp [here]

theorem map_modify_of_unchanged {project : α → β} {update : α → α}
    (unchanged : ∀ value, project (update value) = project value)
    (list : List α) (index : Nat) :
    (list.modify index update).map project = list.map project := by
  rw [map_modify project update id unchanged, List.modify_id]

theorem map_updateFirst (project : α → β) (update : α → α) (image : β → β)
    {found : α → Bool} (foundImage : β → Bool)
    (commutes : ∀ value, project (update value) = image (project value))
    (sameTest : ∀ value, foundImage (project value) = found value) (list : List α) :
    (updateFirst found update list).map project =
      updateFirst foundImage image (list.map project) := by
  have sameFunction : foundImage ∘ project = found := funext sameTest
  rw [updateFirst, updateFirst, List.findIdx?_map, sameFunction]
  cases list.findIdx? found with
  | none => rfl
  | some index => exact map_modify project update image commutes list index

theorem map_updateFirst_of_unchanged {project : α → β} {update : α → α}
    {found : α → Bool}
    (unchanged : ∀ value, project (update value) = project value) (list : List α) :
    (updateFirst found update list).map project = list.map project := by
  rw [updateFirst]
  cases list.findIdx? found with
  | none => rfl
  | some index => exact map_modify_of_unchanged unchanged list index

theorem exists_of_mem_modify {list : List α} {index : Nat} {update : α → α} {value : α}
    (member : value ∈ list.modify index update) :
    ∃ old ∈ list, value = old ∨ value = update old := by
  rcases List.mem_iff_getElem?.mp member with ⟨position, here⟩
  rw [List.getElem?_modify] at here
  cases old : list[position]? with
  | none => simp [old] at here
  | some before =>
      refine ⟨before, List.mem_of_getElem? old, ?_⟩
      by_cases equal : index = position
      · simp only [equal, old, if_true] at here
        exact Or.inr (Option.some.inj here).symm
      · simp only [equal, old, if_false] at here
        exact Or.inl (Option.some.inj here).symm

theorem exists_of_mem_updateFirst {found : α → Bool} {update : α → α} {list : List α}
    {value : α} (member : value ∈ updateFirst found update list) :
    ∃ old ∈ list, value = old ∨ found old = true ∧ value = update old := by
  rw [updateFirst] at member
  cases position : list.findIdx? found with
  | none =>
      rw [position] at member
      exact ⟨value, member, Or.inl rfl⟩
  | some index =>
      rw [position] at member
      rcases List.findIdx?_eq_some_iff_getElem.mp position with ⟨inRange, isFound, _⟩
      change value ∈ list.modify index update at member
      rw [List.modify_eq_set_get _ inRange] at member
      rcases List.mem_or_eq_of_mem_set member with old | new
      · exact ⟨value, old, Or.inl rfl⟩
      · exact ⟨list[index], List.getElem_mem inRange, Or.inr ⟨isFound, new⟩⟩

theorem find?_eq_some_of_unique {list : List α} {found : α → Bool} {value : α}
    (member : value ∈ list) (accepted : found value = true)
    (unique : ∀ other ∈ list, found other = true → other = value) :
    list.find? found = some value := by
  cases search : list.find? found with
  | none =>
      have refused := List.find?_eq_none.mp search value member
      exact absurd accepted refused
  | some other =>
      rw [unique other (List.mem_of_find?_eq_some search) (List.find?_some search)]

variable {κ : Type w}

theorem position_eq_iff {key : α → κ} {list : List α} (distinct : (list.map key).Nodup)
    {first second : Nat} {left right : α} (here : list[first]? = some left)
    (there : list[second]? = some right) : first = second ↔ key left = key right := by
  constructor
  · rintro rfl
    rw [here, Option.some.injEq] at there
    rw [there]
  · intro equalKeys
    have leftKey : (list.map key)[first]? = some (key left) := by simp [here]
    have rightKey : (list.map key)[second]? = some (key left) := by simp [there, equalKeys]
    have inRange := (List.getElem?_eq_some_iff.mp leftKey).1
    exact (List.getElem?_inj inRange distinct).mp (leftKey.trans rightKey.symm)

variable [DecidableEq κ]

theorem modify_eq_map {key : α → κ} {list : List α} (distinct : (list.map key).Nodup)
    {index : Nat} {holder : α} (holds : list[index]? = some holder) (update : α → α) :
    list.modify index update =
      list.map fun value => if key value = key holder then update value else value := by
  apply List.ext_getElem?
  intro position
  rw [List.getElem?_modify, List.getElem?_map]
  cases here : list[position]? with
  | none => simp
  | some value =>
      have same : index = position ↔ key value = key holder :=
        (position_eq_iff distinct holds here).trans eq_comm
      by_cases equal : index = position
      · simp [equal, same.mp equal]
      · simp [equal, mt same.mpr equal]

theorem updateFirst_eq_map {key : α → κ} {list : List α} (distinct : (list.map key).Nodup)
    (wanted : κ) (update : α → α) :
    updateFirst (fun value => decide (key value = wanted)) update list =
      list.map fun value => if key value = wanted then update value else value := by
  rw [updateFirst]
  cases position : list.findIdx? fun value => decide (key value = wanted) with
  | none =>
      rw [List.findIdx?_eq_none_iff] at position
      conv => lhs; rw [← List.map_id list]
      apply List.map_congr_left
      intro value member
      have other : key value ≠ wanted := by simpa using position value member
      simp [other]
  | some index =>
      rcases List.findIdx?_eq_some_iff_getElem.mp position with ⟨inRange, isWanted, _⟩
      have equalKey : key list[index] = wanted := by simpa using isWanted
      rw [← equalKey]
      exact modify_eq_map distinct (List.getElem?_eq_getElem inRange) update

theorem eraseP_eq_filter {key : α → κ} {list : List α} (distinct : (list.map key).Nodup)
    (wanted : κ) :
    list.eraseP (fun value => decide (key value = wanted)) =
      list.filter fun value => decide (key value ≠ wanted) := by
  induction list with
  | nil => rfl
  | cons head tail induction =>
      rw [List.map_cons, List.nodup_cons] at distinct
      by_cases equal : key head = wanted
      · have others : ∀ value ∈ tail, decide (key value ≠ wanted) = true := by
          intro value member
          have different : key value ≠ key head := fun same =>
            distinct.1 (same ▸ List.mem_map_of_mem member)
          simpa [← equal] using different
        rw [List.eraseP_cons_of_pos (by simpa using equal),
          List.filter_cons_of_neg (by simpa using equal), List.filter_eq_self.mpr others]
      · rw [List.eraseP_cons_of_neg (by simpa using equal),
          List.filter_cons_of_pos (by simpa using equal), induction distinct.2]

theorem filter_key_eq_singleton {key : α → κ} {list : List α} (distinct : (list.map key).Nodup)
    {value : α} (member : value ∈ list) :
    (list.filter fun other => decide (key other = key value)) = [value] := by
  induction list with
  | nil => cases member
  | cons first rest induction =>
      rw [List.map_cons, List.nodup_cons] at distinct
      rcases List.mem_cons.mp member with rfl | later
      · rw [List.filter_cons_of_pos (by simp), List.filter_eq_nil_iff.mpr]
        intro other isOther same
        exact distinct.1 (of_decide_eq_true same ▸ List.mem_map_of_mem isOther)
      · have apart : key first ≠ key value := fun same =>
          distinct.1 (same ▸ List.mem_map_of_mem later)
        rw [List.filter_cons_of_neg (by simpa using apart)]
        exact induction distinct.2 later

theorem filter_notMem_cons (key : α → κ) (list : List α) (wanted : κ) (others : List κ) :
    (list.filter fun value => decide (key value ≠ wanted)).filter
        (fun value => decide (key value ∉ others)) =
      list.filter fun value => decide (key value ∉ wanted :: others) := by
  rw [List.filter_filter]
  apply List.filter_congr
  intro value _
  simp [Bool.and_comm]

theorem disjoint_flatMap_filter {list : List α} {parts : α → List β}
    (distinct : (list.flatMap parts).Nodup) (stays : α → Bool) :
    List.Disjoint ((list.filter stays).flatMap parts)
      ((list.filter fun value => !stays value).flatMap parts) := by
  have same := List.filter_append_perm stays list
  have split := (same.flatMap_right parts).nodup_iff.mpr distinct
  rw [List.flatMap_append] at split
  exact (List.nodup_append'.mp split).2.2

theorem filter_key_eq {key : α → κ} {list : List α} (distinct : (list.map key).Nodup)
    {holder : α} (member : holder ∈ list) :
    list.filter (fun value => decide (key value = key holder)) = [holder] := by
  induction list with
  | nil => cases member
  | cons head tail induction =>
      rw [List.map_cons, List.nodup_cons] at distinct
      rcases List.mem_cons.mp member with rfl | inTail
      · have others : ∀ value ∈ tail, ¬decide (key value = key holder) = true := by
          intro value valueInTail
          simpa using fun same : key value = key holder =>
            distinct.1 (same ▸ List.mem_map_of_mem valueInTail)
        rw [List.filter_cons_of_pos (by simp), List.filter_eq_nil_iff.mpr others]
      · have different : key head ≠ key holder := fun same =>
          distinct.1 (same ▸ List.mem_map_of_mem inTail)
        rw [List.filter_cons_of_neg (by simpa using different), induction distinct.2 inTail]

end RaspberryPi
