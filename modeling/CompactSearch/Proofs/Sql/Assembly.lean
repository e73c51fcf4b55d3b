/-
Assemblies. Each condition on the stack comes from some of the steps, which are known by their places (`origins`). At
every point of a run, a condition has one binding for each of its steps that binds a value, and no name is bound twice
on the stack (`run_bindings`).

The invariant is that the stack follows the origins (`Follows`): a name is the number of names issued before its step,
so steps at different places have different names, and a join merges bindings that have none in common.
-/
import CompactSearch.Proofs.Sql.Bindings
import CompactSearch.Sql.Assembly
import Mathlib.Data.List.Induction
import Mathlib.Data.List.Nodup

namespace CompactSearch.Sql

/-! ## Steps -/

namespace Step

/-- The value that a step binds. -/
def bound? : Step → Option Bound
  | like _ value w => some (.text (likePattern w value))
  | compare _ _ v => if v = .null then none else some v
  | _ => none

/-- Whether a step takes a name from the supply. -/
def issues : Step → Bool
  | nextId => true
  | s => s.bound?.isSome

/-- Whether a step makes a condition that has no parts. -/
def isLeaf : Step → Bool
  | nextId | all _ | any _ => false
  | _ => true

theorem issues_of_bound {s : Step} (h : s.bound?.isSome = true) : s.issues = true := by
  cases s with
  | nextId => rfl
  | _ => exact h

end Step

namespace Assembly

variable {batch : String} {steps : List Step} {s : Step} {a : Assembly} {i j k : Nat}

/-- The number of names that steps take. -/
def issued (steps : List Step) : Nat := steps.countP Step.issues

/-- The places of the steps that make conditions without parts. -/
def leafPlaces (steps : List Step) : List Nat :=
  (List.range steps.length).filter fun k => steps[k]?.any Step.isLeaf

/-- The name and the value that the step at a place binds; the name is the number of names taken before. -/
def binding? (batch : String) (steps : List Step) (k : Nat) : Option (String × Bound) :=
  (steps[k]?.bind Step.bound?).map fun v => (Placeholders.name batch (issued (steps.take k)), v)

/-- What a step at a place does to the places of the steps that went into each condition, the last condition first. -/
def originStep (stack : List (List Nat)) (k : Nat) : Step → List (List Nat)
  | .nextId => stack
  | .all count | .any count => (stack.take count).reverse.flatten :: stack.drop count
  | .like .. | .compare .. | .isNull _ | .text _ | .tautology => [k] :: stack

/-- The places of the steps that went into each condition, the last condition first. -/
def origins (steps : List Step) : List (List Nat) :=
  steps.zipIdx.foldl (fun stack (s, k) => originStep stack k s) []

/-! ## One step more -/

theorem issued_concat (steps : List Step) (s : Step) :
    issued (steps ++ [s]) = issued steps + if s.issues then 1 else 0 := by
  rw [issued, List.countP_append, List.countP_singleton]
  rfl

theorem leafPlaces_concat (steps : List Step) (s : Step) :
    leafPlaces (steps ++ [s]) = leafPlaces steps ++ if s.isLeaf then [steps.length] else [] := by
  unfold leafPlaces
  rw [List.length_append, List.length_singleton, List.range_succ, List.filter_append]
  congr 1
  · refine List.filter_congr fun k hk => ?_
    rw [List.getElem?_append_left (List.mem_range.1 hk)]
  · rw [List.filter_singleton, List.getElem?_concat_length, Option.any_some]
    cases s.isLeaf <;> rfl

theorem origins_concat (steps : List Step) (s : Step) :
    origins (steps ++ [s]) = originStep (origins steps) steps.length s := by
  unfold origins
  rw [List.zipIdx_append, List.foldl_append, Nat.zero_add]
  rfl

theorem binding?_concat_left (s : Step) (hk : k < steps.length) :
    binding? batch (steps ++ [s]) k = binding? batch steps k := by
  unfold binding?
  rw [List.getElem?_append_left hk, List.take_append_of_le_length hk.le]

theorem binding?_concat_length (batch : String) (steps : List Step) (s : Step) :
    binding? batch (steps ++ [s]) steps.length =
      s.bound?.map fun v => (Placeholders.name batch (issued steps), v) := by
  unfold binding?
  rw [List.getElem?_concat_length, List.take_left, Option.bind_some]

theorem originStep_of_isLeaf (hs : s.isLeaf = true) (stack : List (List Nat)) (k : Nat) :
    originStep stack k s = [k] :: stack := by
  cases s with
  | nextId | all | any => cases hs
  | _ => rfl

theorem lt_of_mem_leafPlaces (h : k ∈ leafPlaces steps) : k < steps.length :=
  List.mem_range.1 (List.mem_of_mem_filter h)

theorem nodup_leafPlaces (steps : List Step) : (leafPlaces steps).Nodup := List.nodup_range.filter _

/-! ## Names of places -/

/-- A step that takes a name makes the numbers of all later ones greater. -/
theorem issued_lt (hs : steps[i]? = some s) (h : s.issues = true) (hij : i < j) :
    issued (steps.take i) < issued (steps.take j) := by
  have hi : issued (steps.take (i + 1)) = issued (steps.take i) + 1 := by
    rw [List.take_add_one, hs, Option.toList_some, issued_concat, if_pos h]
  have hle : issued (steps.take (i + 1)) ≤ issued (steps.take j) :=
    (List.take_sublist_take_left hij).countP_le
  omega

theorem binding?_eq_some {id : String} {v : Bound} (h : binding? batch steps k = some (id, v)) :
    ∃ s, steps[k]? = some s ∧ s.issues = true ∧ id = Placeholders.name batch (issued (steps.take k)) := by
  obtain ⟨w, hw, he⟩ := Option.map_eq_some_iff.1 h
  obtain ⟨s, hs, hb⟩ := Option.bind_eq_some_iff.1 hw
  cases he
  exact ⟨s, hs, Step.issues_of_bound (by rw [hb]; rfl), rfl⟩

/-- Steps at different places bind different names. -/
theorem place_of_binding {id : String} {v w : Bound} (h : binding? batch steps i = some (id, v))
    (h' : binding? batch steps j = some (id, w)) : i = j := by
  obtain ⟨s, hs, hi, hid⟩ := binding?_eq_some h
  obtain ⟨s', hs', hj, rfl⟩ := binding?_eq_some h'
  have he := Placeholders.name_inj.1 hid
  rcases lt_trichotomy i j with hij | hij | hij
  · have := issued_lt hs hi hij
    omega
  · exact hij
  · have := issued_lt hs' hj hij
    omega

theorem nodup_bindings {ks : List Nat} (h : ks.Nodup) : ((ks.filterMap (binding? batch steps)).map (·.1)).Nodup := by
  rw [List.map_filterMap]
  refine List.Nodup.filterMap (fun i j id hi hj => ?_) h
  obtain ⟨⟨_, v⟩, hbi, rfl⟩ := Option.map_eq_some_iff.1 hi
  obtain ⟨⟨_, w⟩, hbj, rfl⟩ := Option.map_eq_some_iff.1 hj
  exact place_of_binding hbi hbj

/-! ## Joins -/

theorem foldl_merge_perm : ∀ {parts : List Condition} {acc : Bindings},
    ((acc ++ parts.flatMap (·.params)).map (·.1)).Nodup →
      (parts.foldl (fun acc c => acc.merge c.params) acc).Perm (acc ++ parts.flatMap (·.params))
  | [], acc, _ => by rw [List.flatMap_nil, List.append_nil]; rfl
  | c :: parts, acc, h => by
    rw [List.foldl_cons, List.flatMap_cons, ← List.append_assoc] at *
    have hm : (acc.merge c.params).Perm (acc ++ c.params) := Bindings.merge_perm <| by
      rw [List.map_append, List.map_append] at h
      exact (List.nodup_append.1 h).1
    refine (foldl_merge_perm ?_).trans (hm.append_right _)
    exact (((hm.append_right _).map _).nodup_iff).2 h

/-- A join of conditions that bind different names has the bindings of all of them. -/
theorem joinParams_perm {parts : List Condition} (h : ((parts.flatMap (·.params)).map (·.1)).Nodup) :
    (Condition.joinParams parts).Perm (parts.flatMap (·.params)) :=
  foldl_merge_perm h

theorem params_all (parts : List Condition) : (Condition.all parts).params = Condition.joinParams parts := by
  cases parts <;> rfl

theorem params_any (parts : List Condition) : (Condition.any parts).params = Condition.joinParams parts := by
  cases parts <;> rfl

/-! ## The invariant -/

/-- The stack follows the places of the steps it comes from, and each step that makes a condition went into one. -/
structure Follows (batch : String) (steps : List Step) (a : Assembly) : Prop where
  ids : a.ids = ⟨batch, issued steps⟩
  params : List.Forall₂ (fun c ks => c.params.Perm (ks.filterMap (binding? batch steps))) a.stack (origins steps)
  places : (origins steps).flatten.Perm (leafPlaces steps)

theorem follows_initial (batch : String) : Follows batch [] (initial batch) := ⟨rfl, .nil, .nil⟩

/-- The bindings of conditions that follow places are those of all the places. -/
theorem flatMap_params {cs : List Condition} {kss : List (List Nat)} {f : Nat → Option (String × Bound)}
    (h : List.Forall₂ (fun c ks => c.params.Perm (ks.filterMap f)) cs kss) :
    (cs.flatMap (·.params)).Perm (kss.flatten.filterMap f) := by
  induction h with
  | nil => exact .nil
  | cons hc _ ih =>
    rw [List.flatMap_cons, List.flatten_cons, List.filterMap_append]
    exact hc.append ih

namespace Follows

theorem nodup (h : Follows batch steps a) : (origins steps).flatten.Nodup :=
  h.places.nodup_iff.2 (nodup_leafPlaces steps)

theorem place_lt (h : Follows batch steps a) {ks : List Nat} (hks : ks ∈ origins steps) (hk : k ∈ ks) :
    k < steps.length :=
  lt_of_mem_leafPlaces (h.places.mem_iff.1 (List.mem_flatten.2 ⟨ks, hks, hk⟩))

/-- A further step changes nothing in what the conditions follow. -/
theorem params_concat (h : Follows batch steps a) (s : Step) :
    List.Forall₂ (fun c ks => c.params.Perm (ks.filterMap (binding? batch (steps ++ [s])))) a.stack
      (origins steps) := by
  have hforall := List.forall₂_iff_get.1 h.params
  refine List.forall₂_iff_get.2 ⟨hforall.1, fun i hi hi' => ?_⟩
  refine (hforall.2 i hi hi').trans (.of_eq (List.filterMap_congr fun k hk => ?_))
  exact (binding?_concat_left s (h.place_lt (List.get_mem _ _) hk)).symm

/-- A step that makes a condition of its own. -/
theorem leaf {c : Condition} (h : Follows batch steps a) (hs : s.isLeaf = true)
    (ha : a.step s = ⟨⟨batch, issued (steps ++ [s])⟩, c :: a.stack⟩)
    (hc : c.params = (s.bound?.map fun v => (Placeholders.name batch (issued steps), v)).toList) :
    Follows batch (steps ++ [s]) (a.step s) := by
  rw [ha]
  refine ⟨rfl, ?_, ?_⟩
  · rw [origins_concat, originStep_of_isLeaf hs]
    refine .cons (.of_eq ?_) (h.params_concat s)
    rw [hc, ← binding?_concat_length, List.filterMap_cons, List.filterMap_nil]
    cases binding? batch (steps ++ [s]) steps.length <;> rfl
  · rw [origins_concat, originStep_of_isLeaf hs, leafPlaces_concat, if_pos hs]
    have hcomm : ([steps.length] :: origins steps).flatten.Perm ((origins steps).flatten ++ [steps.length]) :=
      List.perm_append_comm
    exact hcomm.trans (h.places.append_right _)

/-- A step that joins conditions. -/
theorem join {count : Nat} {join : List Condition → Condition} (h : Follows batch steps a)
    (hs : s.isLeaf = false ∧ s.issues = false)
    (ho : ∀ stack k, originStep stack k s = (stack.take count).reverse.flatten :: stack.drop count)
    (ha : a.step s = a.combine count join) (hj : ∀ parts, (join parts).params = Condition.joinParams parts) :
    Follows batch (steps ++ [s]) (a.step s) := by
  have hparts := flatMap_params (List.rel_reverse (List.forall₂_take count (h.params_concat s)))
  -- the places of the stack do not change, they come in another order
  have hplaces : (originStep (origins steps) steps.length s).flatten.Perm (origins steps).flatten := by
    rw [ho, List.flatten_cons]
    calc ((origins steps).take count).reverse.flatten ++ ((origins steps).drop count).flatten
      _ |>.Perm (((origins steps).take count).flatten ++ ((origins steps).drop count).flatten) :=
        (List.Perm.flatten (List.reverse_perm _)).append_right _
      _ = (origins steps).flatten := by rw [← List.flatten_append, List.take_append_drop]
  have hnodup : (((origins steps).take count).reverse.flatten).Nodup := by
    have hn := hplaces.nodup_iff.2 h.nodup
    rw [ho, List.flatten_cons] at hn
    exact (List.nodup_append.1 hn).1
  rw [ha]
  refine ⟨?_, ?_, ?_⟩
  · rw [issued_concat, if_neg (by rw [hs.2]; decide)]
    exact h.ids
  · rw [origins_concat, ho]
    refine .cons ?_ (List.forall₂_drop count (h.params_concat s))
    rw [hj]
    refine (joinParams_perm ?_).trans hparts
    exact (hparts.map _).nodup_iff.2 (nodup_bindings hnodup)
  · rw [origins_concat, leafPlaces_concat, if_neg (by rw [hs.1]; decide), List.append_nil]
    exact hplaces.trans h.places

/-- What one step preserves. -/
theorem step (h : Follows batch steps a) (s : Step) : Follows batch (steps ++ [s]) (a.step s) := by
  have hids := h.ids
  obtain ⟨ids, stack⟩ := a
  obtain rfl : ids = ⟨batch, issued steps⟩ := hids
  cases s with
  | nextId =>
    refine ⟨?_, ?_, ?_⟩
    · rw [issued_concat]
      rfl
    · rw [origins_concat]
      exact h.params_concat _
    · rw [origins_concat, leafPlaces_concat, if_neg (by decide), List.append_nil]
      exact h.places
  | like field value w => exact h.leaf rfl (by rw [issued_concat]; rfl) rfl
  | compare field op v =>
    by_cases hv : v = .null
    · subst hv
      exact h.leaf rfl (by rw [issued_concat]; rfl) rfl
    · have hb : (Step.compare field op v).bound? = some v := if_neg hv
      refine h.leaf rfl (c := (Condition.compare field op v ⟨batch, issued steps⟩).1) ?_ ?_
      · rw [issued_concat, if_pos (Step.issues_of_bound (by rw [hb]; rfl)), Assembly.step, Condition.compare, if_neg hv]
        rfl
      · rw [hb, Condition.compare, if_neg hv]
        rfl
  | isNull field => exact h.leaf rfl (by rw [issued_concat]; rfl) rfl
  | text s => exact h.leaf rfl (by rw [issued_concat]; rfl) rfl
  | tautology => exact h.leaf rfl (by rw [issued_concat]; rfl) rfl
  | all count => exact h.join ⟨rfl, rfl⟩ (fun _ _ => rfl) rfl params_all
  | any count => exact h.join ⟨rfl, rfl⟩ (fun _ _ => rfl) rfl params_any

/-- What a run keeps to. -/
theorem run (batch : String) (steps : List Step) : Follows batch steps ((initial batch).run steps) := by
  induction steps using List.reverseRecOn with
  | nil => exact follows_initial batch
  | append_singleton steps s ih =>
    have he : (initial batch).run (steps ++ [s]) = ((initial batch).run steps).step s := List.foldl_concat ..
    rw [he]
    exact ih.step s

end Follows

/-! ## What a run binds -/

/-- The conditions on a stack that follows places bind different names, each of them once. -/
theorem Follows.names (h : Follows batch steps a) : (a.stack.flatMap fun c => c.params.map (·.1)).Nodup := by
  rw [← List.map_flatMap, ((flatMap_params h.params).map _).nodup_iff]
  exact nodup_bindings h.nodup

/-- At every point of a run, the conditions on the stack come from the steps that make conditions, each of which went
into one of them. A condition has exactly one binding for each of its steps that binds a value, to that value. The names
on the stack are all different, and are among those that were issued; and a comparison with null issues none and is
the test for null. -/
theorem run_bindings (batch : String) (steps : List Step) :
    let a := (initial batch).run steps
    a.ids = ⟨batch, issued steps⟩ ∧
    (origins steps).flatten.Perm (leafPlaces steps) ∧
    List.Forall₂ (fun c ks => (c.params.map (·.1)).Nodup ∧ c.params.Perm (ks.filterMap (binding? batch steps)))
      a.stack (origins steps) ∧
    a.stack.Pairwise (fun c d => (c.params.map (·.1)).Disjoint (d.params.map (·.1))) ∧
    (∀ c ∈ a.stack, ∀ id ∈ c.params.map (·.1), ∃ i < issued steps, id = Placeholders.name batch i) ∧
    ∀ field op, a.step (.compare field op .null) = a.step (.isNull field) ∧
      (a.step (.compare field op .null)).ids = a.ids := by
  intro a
  have h : Follows batch steps a := Follows.run batch steps
  obtain ⟨hnodup, hdisjoint⟩ := List.nodup_flatMap.1 h.names
  refine ⟨h.ids, h.places, ?_, hdisjoint, ?_, fun field op => ⟨rfl, rfl⟩⟩
  · have hforall := List.forall₂_iff_get.1 h.params
    exact List.forall₂_iff_get.2 ⟨hforall.1, fun i hi hi' => ⟨hnodup _ (List.get_mem _ _), hforall.2 i hi hi'⟩⟩
  · intro c hc id hid
    obtain ⟨⟨_, v⟩, hv, rfl⟩ := List.mem_map.1 hid
    have hm := (flatMap_params h.params).mem_iff.1 (List.mem_flatMap.2 ⟨c, hc, hv⟩)
    obtain ⟨k, hk, hb⟩ := List.mem_filterMap.1 hm
    obtain ⟨s, hs, hissues, he⟩ := binding?_eq_some hb
    have hlt := issued_lt hs hissues (lt_of_mem_leafPlaces (h.places.mem_iff.1 hk))
    rw [List.take_length] at hlt
    exact ⟨_, hlt, he⟩

/-- A name that no condition uses is passed over. -/
example :
    let steps : List Step :=
      [.like "f" "50%" .substring, .nextId, .compare "g" .gt (.integer 1), .tautology, .all 2, .any 2]
    ((initial "b").run steps).stack.map (·.params) = [[("pb_0", .text "%50\\%%"), ("pb_2", .integer 1)]] ∧
      origins steps = [[0, 2, 3]] := by
  decide +kernel

end Assembly

end CompactSearch.Sql
