/-
Policies written and read back. What is written has one member for each list that is present, under the name of its
role, so that the tokens of the text are known from the lists (`tokens_compact`); the reading takes these tokens
without meeting a problem (`run_policyTokens`), and lists without repetitions are put in place as they are. So a
policy that has been made in any way is read back from its text, and nothing is reported (`json_round_trip`).
-/
import CompactSearch.Proofs.Json.Written
import CompactSearch.Proofs.Policy.History

namespace CompactSearch

open Json (HasTokens)

/-! ## Lists -/

namespace FieldPolicy

/-- No list of the policy repeats a name. -/
def Distinct (p : FieldPolicy) : Prop := ∀ role xs, p.get role = some xs → xs.Nodup

/-- The lists that are present, in the order in which they are written. -/
def lists (p : FieldPolicy) : List (FieldRole × List String) :=
  FieldRole.every.filterMap fun role => (p.get role).map (role, ·)

variable {p q : FieldPolicy}

theorem eq_of_get (h : ∀ role, p.get role = q.get role) : p = q := by
  obtain ⟨a, s, d⟩ := p
  obtain ⟨a', s', d'⟩ := q
  obtain rfl : a = a' := h .any
  obtain rfl : s = s' := h .isString
  obtain rfl : d = d' := h .isDate
  rfl

theorem nodup_lists (p : FieldPolicy) : (p.lists.map (·.1)).Nodup := by
  obtain ⟨a, s, d⟩ := p
  cases a <;> cases s <;> cases d <;> simp [lists, FieldRole.every, get]

theorem mem_lists {role : FieldRole} {xs : List String} (h : (role, xs) ∈ p.lists) : p.get role = some xs := by
  obtain ⟨role', -, h⟩ := List.mem_filterMap.1 h
  obtain ⟨xs', hget, heq⟩ := Option.map_eq_some_iff.1 h
  cases heq
  exact hget

/-- The lists as the entries of a stored policy. -/
def entries (p : FieldPolicy) : List Policy.Entry := p.lists.map fun (role, xs) => (role, some xs)

theorem lookup_entries (p : FieldPolicy) (role : FieldRole) : p.entries.lookup role = (p.get role).map some := by
  obtain ⟨a, s, d⟩ := p
  cases a <;> cases s <;> cases d <;> cases role <;> rfl

/-- Lists without repetitions are put in place as they are, and nothing is reported. -/
theorem ofEntries_entries (h : p.Distinct) : ofEntries p.entries = (p, []) := by
  have hlists : (ofEntries p.entries).1 = p := by
    refine eq_of_get fun role => ?_
    rw [get_ofEntries, lookup_entries]
    cases hget : p.get role with
    | none => rfl
    | some xs => exact congrArg some (eraseDups_of_nodup (h role xs hget))
  have hreports : (ofEntries p.entries).2 = [] := by
    rw [reports_ofEntries, reports, entries, List.flatMap_map, List.flatMap_eq_nil_iff]
    rintro ⟨role, xs⟩ hmem
    simp only [Option.getD_some, repeats_of_nodup (h role xs (mem_lists hmem)), List.map_nil]
  exact Prod.ext hlists hreports

end FieldPolicy

/-! ## Tokens -/

namespace Policy

/-- The tokens of names with commas between them. -/
def nameTokens (xs : List String) : List Json.Token := [.comma].intercalate (xs.map fun s => [.string (.ok s) none])

/-- The tokens of a member that gives a list. -/
def memberTokens (l : FieldRole × List String) : List Json.Token :=
  .string (.ok l.1.name) none :: .colon :: .openArray :: (nameTokens l.2 ++ [.closeArray])

/-- The tokens of a policy with some lists. -/
def policyTokens (ls : List (FieldRole × List String)) : List Json.Token :=
  .openObject :: ([.comma].intercalate (ls.map memberTokens) ++ [.closeObject])

theorem hasTokens_names (xs : List String) :
    HasTokens (Json.compact (.array (xs.map .string))).toList (.openArray :: (nameTokens xs ++ [.closeArray])) := by
  have hitems : Json.compactItems (xs.map .string) = xs.map Json.quote := by
    induction xs with
    | nil => rfl
    | cons x xs ih => rw [List.map_cons, Json.compactItems, ih]; rfl
  rw [Json.compact, hitems]
  refine Json.hasTokens_brackets (Json.hasTokens_parts ?_)
  rw [List.forall₂_map_left_iff, List.forall₂_map_right_iff, List.forall₂_same]
  exact fun s _ => Json.hasTokens_quote s

/-- The text of a policy has the tokens of its lists. -/
theorem tokens_compact (p : FieldPolicy) : Json.tokens p.toJson.compact.toList = policyTokens p.lists := by
  let field (l : FieldRole × List String) : String × Json := (l.1.name, .array (l.2.map .string))
  have hjson : p.toJson = .object (p.lists.map field) := by
    rw [FieldPolicy.toJson, FieldPolicy.lists, List.map_filterMap]
    congr 1
    refine List.filterMap_congr fun role _ => ?_
    cases p.get role <;> rfl
  have hfields : ∀ ls : List (FieldRole × List String), Json.compactFields (ls.map field) =
      ls.map fun l => Json.quote l.1.name ++ ":" ++ Json.compact (.array (l.2.map .string)) := by
    intro ls
    induction ls with
    | nil => rfl
    | cons l ls ih => rw [List.map_cons, Json.compactFields, ih]; rfl
  rw [hjson, Json.compact, hfields]
  refine (Json.hasTokens_braces (Json.hasTokens_parts ?_)).eq
  rw [List.forall₂_map_left_iff, List.forall₂_map_right_iff, List.forall₂_same]
  exact fun l _ => Json.hasTokens_field l.1.name (hasTokens_names l.2)

/-! ## Reading -/

variable {b : Bracket} {es : List Entry} {role : FieldRole}

namespace Reading

theorem run_cons {r r' : Reading} {t : Json.Token} (h : r.step t = .ok r') (ts : List Json.Token) :
    r.run (t :: ts) = r'.run ts := by
  rw [run, h]

/-- The names of a list, and the end of the list. -/
theorem run_names (phase : ListPhase) (hp : phase ≠ .commaOrEnd) (rest : List Json.Token) :
    ∀ (x : String) (xs names : List String),
      run ⟨b, es, .names role phase names⟩ (nameTokens (x :: xs) ++ .closeArray :: rest) =
        run ⟨b, (role, some (names.reverse ++ x :: xs)) :: es, .next⟩ rest
  | x, [], names => by
    have hname : step ⟨b, es, .names role phase names⟩ (.string (.ok x) none) =
        .ok ⟨b, es, .names role .commaOrEnd (x :: names)⟩ := by cases phase <;> first | rfl | exact absurd rfl hp
    have hend : step ⟨b, es, .names role .commaOrEnd (x :: names)⟩ .closeArray =
        .ok ⟨b, (role, some (names.reverse ++ [x])) :: es, .next⟩ := by
      rw [← List.reverse_cons]
      rfl
    show run _ (.string (.ok x) none :: .closeArray :: rest) = _
    rw [run_cons hname, run_cons hend]
  | x, y :: xs, names => by
    have hname : step ⟨b, es, .names role phase names⟩ (.string (.ok x) none) =
        .ok ⟨b, es, .names role .commaOrEnd (x :: names)⟩ := by cases phase <;> first | rfl | exact absurd rfl hp
    have hcomma : step ⟨b, es, .names role .commaOrEnd (x :: names)⟩ .comma =
        .ok ⟨b, es, .names role .name (x :: names)⟩ := rfl
    show run _ (.string (.ok x) none :: .comma :: (nameTokens (y :: xs) ++ .closeArray :: rest)) = _
    rw [run_cons hname, run_cons hcomma, run_names .name (by decide) rest y xs, List.reverse_cons, List.append_assoc]
    rfl

/-- A member whose role has no list yet. -/
theorem run_member {first : Bool} (l : FieldRole × List String) (h : l.1 ∉ es.map (·.1)) (rest : List Json.Token) :
    run ⟨.object, es, .key first⟩ (memberTokens l ++ rest) =
      run ⟨.object, (l.1, some l.2) :: es, .next⟩ rest := by
  obtain ⟨role, xs⟩ := l
  have hkey : step ⟨.object, es, .key first⟩ (.string (.ok role.name) none) =
      .ok ⟨.object, es, .colon (some role)⟩ := by
    have hrole : FieldRole.ofKey? role.name = some role := by cases role <;> decide
    have hnew : es.any (·.1 == role) = false := by
      rw [List.any_eq_false]
      intro e he hr
      exact h (List.mem_map.2 ⟨e, he, beq_iff_eq.1 hr⟩)
    cases first <;> simp [step, keyStep, hrole, hnew, goTo]
  have hcolon : step ⟨.object, es, .colon (some role)⟩ .colon = .ok ⟨.object, es, .value role⟩ := rfl
  have hopen : step ⟨.object, es, .value role⟩ .openArray = .ok ⟨.object, es, .names role .nameOrEnd []⟩ := rfl
  rw [memberTokens, List.cons_append, List.cons_append, List.cons_append, List.append_assoc, run_cons hkey,
    run_cons hcolon, run_cons hopen, List.singleton_append]
  cases xs with
  | nil => rfl
  | cons x xs => exact run_names .nameOrEnd (by decide) rest x xs []

/-- Members with commas between them, and the end of the object. -/
theorem run_members {first : Bool} : ∀ {l : FieldRole × List String} {ls : List (FieldRole × List String)}
    {es : List Entry}, ((l :: ls).map (·.1)).Nodup → (∀ role ∈ (l :: ls).map (·.1), role ∉ es.map (·.1)) →
      run ⟨.object, es, .key first⟩ ([.comma].intercalate ((l :: ls).map memberTokens) ++ [.closeObject]) =
        .ok ⟨.object, ((l :: ls).map fun l => (l.1, some l.2)).reverse ++ es, .done⟩
  | l, [], es, _, hnew => by
    rw [List.map_singleton, List.intercalate_singleton, run_member l (hnew l.1 List.mem_cons_self)]
    rfl
  | l, l' :: ls, es, hd, hnew => by
    have hcomma : step ⟨.object, (l.1, some l.2) :: es, .next⟩ .comma =
        .ok ⟨.object, (l.1, some l.2) :: es, .key false⟩ := rfl
    obtain ⟨hl, hd'⟩ := List.nodup_cons.1 hd
    have hnew' : ∀ role ∈ (l' :: ls).map (·.1), role ∉ ((l.1, some l.2) :: es).map (·.1) := by
      intro role hrole hmem
      rcases List.mem_cons.1 hmem with rfl | hmem
      · exact hl hrole
      · exact hnew role (List.mem_cons_of_mem _ hrole) hmem
    have hreverse : ((l :: l' :: ls).map fun l => (l.1, some l.2)).reverse ++ es =
        ((l' :: ls).map fun l => (l.1, some l.2)).reverse ++ (l.1, some l.2) :: es := by
      rw [List.map_cons, List.reverse_cons, List.append_assoc, List.singleton_append]
    rw [hreverse, List.map_cons, List.map_cons, List.intercalate_cons_cons, ← List.map_cons, List.append_assoc,
      List.append_assoc, run_member l (hnew l.1 List.mem_cons_self), List.singleton_append, run_cons hcomma]
    exact run_members hd' hnew'

/-- The tokens of lists with distinct roles are read to their end, and the lists are recorded. -/
theorem run_policyTokens {ls : List (FieldRole × List String)} (h : (ls.map (·.1)).Nodup) :
    initial.run (policyTokens ls) = .ok ⟨.object, (ls.map fun l => (l.1, some l.2)).reverse, .done⟩ := by
  cases ls with
  | nil => rfl
  | cons l ls =>
    have hopen : initial.step .openObject = .ok ⟨.object, [], .key true⟩ := rfl
    rw [policyTokens, run_cons hopen, run_members h (by simp), List.append_nil]

end Reading

end Policy

namespace FieldPolicy

/-- A policy without repetitions is what its text is read as. -/
theorem ofJsonText_compact {p : FieldPolicy} (h : p.Distinct) : ofJsonText p.toJson.compact = .ok (p, []) := by
  rw [ofJsonText, Policy.tokens_compact, Policy.Reading.run_policyTokens p.nodup_lists]
  simp only [if_true, List.reverse_reverse]
  exact congrArg Except.ok (ofEntries_entries h)

theorem distinct_of_make {cs : List Change} {p : FieldPolicy} {ws : List DroppedName} (h : make cs = some (p, ws)) :
    p.Distinct := fun _ _ hget => nodup_of_make h hget

/-- The JSON text of a policy is read back as the policy, with nothing to report: lists that are absent stay absent
and empty ones stay empty. This holds for every policy that can be made, whatever its names are, and so for every
policy that has been read from a JSON text of any other form. -/
theorem json_round_trip :
    (∀ cs p ws, make cs = some (p, ws) → ofJsonText p.toJson.compact = .ok (p, [])) ∧
    ∀ s p ws, ofJsonText s = .ok (p, ws) → ofJsonText p.toJson.compact = .ok (p, []) := by
  have hmade : ∀ cs p ws, make cs = some (p, ws) → ofJsonText p.toJson.compact = .ok (p, []) :=
    fun cs p ws h => ofJsonText_compact (distinct_of_make h)
  refine ⟨hmade, ?_⟩
  intro s p ws h
  -- reading a text is a way to make a policy
  have hmake : make [.json s] = some (p, ws) := by simp [make, Change.apply, h, Except.toOption]
  exact hmade _ p ws hmake

/-- A policy with an empty name, a name to be escaped and an empty list, and one read from an array that repeats a
name. -/
theorem json_round_trip_controls :
    let p : FieldPolicy := { any := some ["", "\"\\", "\x01é"], isString := some [] }
    let q : FieldPolicy := { any := some ["a"] }
    make [.list .isString [], .list .any ["", "\"\\", "\x01é", ""]] = some (p, [⟨"any", ""⟩]) ∧
      p.toJson.compact = "\x7b\"any\":[\"\",\"\\\"\\\\\",\"\\u0001é\"],\"isString\":[]\x7d" ∧
      ofJsonText p.toJson.compact = .ok (p, []) ∧
      ofJsonText "[[\"a\",\"a\"],null]" = .ok (q, [⟨"policy", "a"⟩]) ∧ ofJsonText q.toJson.compact = .ok (q, []) := by
  intro p q
  have hmake : make [.list .isString [], .list .any ["", "\"\\", "\x01é", ""]] = some (p, [⟨"any", ""⟩]) := by
    decide +kernel
  have hread : ofJsonText "[[\"a\",\"a\"],null]" = .ok (q, [⟨"policy", "a"⟩]) := by decide +kernel
  exact ⟨hmake, by decide +kernel, json_round_trip.1 _ _ _ hmake, hread, json_round_trip.2 _ _ _ hread⟩

end FieldPolicy

end CompactSearch
