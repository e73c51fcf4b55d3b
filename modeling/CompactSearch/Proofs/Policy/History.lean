/-
The history of a policy. A policy is made in steps: lists are set by name or by flags of the command line, or the whole
policy is read from a stored text. A step gives some of the three lists (`Change.Gives`) and has the same effect however
it is made: the lists given are cleared of repeated names, the others stay, and every name dropped is reported
(`effect_of_apply`). So each list of a policy holds the distinct names that were given last (`history_of_make`).
-/
import CompactSearch.CommandLine.Arguments
import CompactSearch.Config.File
import CompactSearch.Proofs.Policy.Reading
import CompactSearch.Proofs.Policy.Repetition

namespace CompactSearch

open CommandLine (PolicyFlags)
open Policy (Entry Describes)

variable {p p' : FieldPolicy} {role : FieldRole} {es es' : List Entry} {ws : List DroppedName}

namespace FieldPolicy

/-! ## Lists of a policy -/

@[simp] theorem get_empty (role : FieldRole) : empty.get role = none := by cases role <;> rfl

theorem get_put (p : FieldPolicy) (role role' : FieldRole) (fields : Option (List String)) :
    (p.put role fields).get role' = if role' = role then fields else p.get role' := by
  cases role <;> cases role' <;> rfl

theorem set_eq (p : FieldPolicy) (role : FieldRole) (fields : List String) :
    p.set role fields = (p.put role (some fields.eraseDups), (repeats fields).map (⟨role.name, ·⟩)) := by
  rw [set, distinctNames_eq]

/-- The reports of the names that repeat in the lists, each under the name of its list. -/
def reports (label : FieldRole → String) (es : List Entry) : List DroppedName :=
  es.flatMap fun (role, fields) => (repeats (fields.getD [])).map (⟨label role, ·⟩)

theorem lookup_cons (role role' : FieldRole) (fields : Option (List String)) (es : List Entry) :
    List.lookup role ((role', fields) :: es) = if role = role' then some fields else es.lookup role := by
  rw [List.lookup_cons]
  by_cases h : role = role'
  · rw [if_pos h, beq_iff_eq.2 h]
  · rw [if_neg h, beq_eq_false_iff_ne.2 h]

theorem get_ofEntries (role : FieldRole) : ∀ es : List Entry,
    (ofEntries es).1.get role = ((es.lookup role).getD none).map List.eraseDups
  | [] => get_empty role
  | (role', none) :: es => by
    have ih := get_ofEntries role es
    rw [ofEntries, lookup_cons]
    simp only [get_put]
    split
    · rfl
    · exact ih
  | (role', some xs) :: es => by
    have ih := get_ofEntries role es
    rw [ofEntries, lookup_cons]
    simp only [distinctNames_eq, get_put]
    split
    · rfl
    · exact ih

theorem reports_ofEntries : ∀ es : List Entry, (ofEntries es).2 = reports (fun _ => "policy") es
  | [] => rfl
  | (role, none) :: es => by
    have ih := reports_ofEntries es
    rw [ofEntries, reports, List.flatMap_cons]
    exact ih
  | (role, some xs) :: es => by
    have ih := reports_ofEntries es
    rw [ofEntries, reports, List.flatMap_cons]
    simp only [distinctNames_eq]
    exact congrArg (_ ++ ·) ih

end FieldPolicy

/-! ## Steps -/

namespace CommandLine.PolicyFlags

/-- The text given for the list of a role. -/
def text? (f : PolicyFlags) : FieldRole → Option String
  | .any => f.any
  | .isString => f.isString
  | .isDate => f.isDate

/-- The lists that the flags give. -/
def entries (f : PolicyFlags) : List Entry :=
  FieldRole.every.filterMap fun role => (f.text? role).map fun s => (role, some (fieldList s))

theorem get_apply (f : PolicyFlags) (p : FieldPolicy) (role : FieldRole) :
    (f.apply p).1.get role = match f.text? role with
      | some s => some (fieldList s).eraseDups
      | none => p.get role := by
  obtain ⟨a, s, d⟩ := f
  unfold apply
  -- every flag sets its own list only, so their order does not matter
  cases a <;> cases s <;> cases d <;> cases role <;> simp only [FieldPolicy.set_eq, FieldPolicy.get_put, text?] <;> rfl

theorem lookup_entries (f : PolicyFlags) (role : FieldRole) :
    f.entries.lookup role = (f.text? role).map fun s => some (fieldList s) := by
  obtain ⟨a, s, d⟩ := f
  cases a <;> cases s <;> cases d <;> cases role <;> rfl

theorem reports_apply (f : PolicyFlags) (p : FieldPolicy) :
    (f.apply p).2 = FieldPolicy.reports FieldRole.name f.entries := by
  obtain ⟨a, s, d⟩ := f
  unfold apply
  cases a <;> cases s <;> cases d <;>
    simp [FieldPolicy.set_eq, FieldPolicy.reports, entries, FieldRole.every, text?]

theorem nodup_entries (f : PolicyFlags) : (f.entries.map (·.1)).Nodup := by
  obtain ⟨a, s, d⟩ := f
  cases a <;> cases s <;> cases d <;> simp [entries, FieldRole.every, text?]

end CommandLine.PolicyFlags

namespace Config

/-- The lists that the members of a mapping give, in order; other keys give nothing. -/
inductive GivesLists (a : Yaml.Anchors) : List (String × Yaml.Node) → List Entry → Prop
  | nil : GivesLists a [] []
  | other {key : String} {v : Yaml.Node} {members : List (String × Yaml.Node)} {es : List Entry}
    (hk : FieldRole.ofKey? key = none) (h : GivesLists a members es) : GivesLists a ((key, v) :: members) es
  | list {key : String} {v : Yaml.Node} {members : List (String × Yaml.Node)} {es : List Entry} {role : FieldRole}
    {fields : Option (List String)} (hk : FieldRole.ofKey? key = some role) (hl : nameList? a v = some fields)
    (h : GivesLists a members es) : GivesLists a ((key, v) :: members) ((role, fields) :: es)

variable {a : Yaml.Anchors} {members : List (String × Yaml.Node)} {seen : List FieldRole}

theorem GivesLists.unique (h : GivesLists a members es) (h' : GivesLists a members es') : es = es' := by
  induction h generalizing es' with
  | nil => cases h'; rfl
  | other hk _ ih =>
    cases h' with
    | other _ h' => exact ih h'
    | list hk' _ _ =>
      rw [hk] at hk'
      cases hk'
  | list hk hl _ ih =>
    cases h' with
    | other hk' _ =>
      rw [hk] at hk'
      cases hk'
    | list hk' hl' h' =>
      rw [hk] at hk'
      rw [hl] at hl'
      cases hk'
      cases hl'
      rw [ih h']

/-- The lists that are read are those that the members give, and no role is given two. -/
theorem givesLists_of_policyEntries : ∀ {members : List (String × Yaml.Node)} {seen : List FieldRole} {es : List Entry},
    policyEntries? a seen members = some es →
      GivesLists a members es ∧ (es.map (·.1)).Nodup ∧ ∀ role ∈ es.map (·.1), role ∉ seen
  | [], seen, es, h => by
    cases h
    exact ⟨.nil, List.nodup_nil, by simp⟩
  | (key, v) :: members, seen, es, h => by
    unfold policyEntries? at h
    split at h
    · rename_i hk
      obtain ⟨hg, hd, hs⟩ := givesLists_of_policyEntries h
      exact ⟨.other hk hg, hd, hs⟩
    · rename_i role hk
      split at h
      · cases h
      · rename_i hnew
        split at h
        · rename_i fields es' hl hes
          cases h
          obtain ⟨hg, hd, hs⟩ := givesLists_of_policyEntries hes
          refine ⟨.list hk hl hg, ?_, ?_⟩
          · rw [List.map_cons, List.nodup_cons]
            exact ⟨fun hmem => hs role hmem List.mem_cons_self, hd⟩
          · rw [List.map_cons, List.forall_mem_cons]
            exact ⟨hnew, fun x hx hseen => hs x hx (List.mem_cons_of_mem _ hseen)⟩
        · cases h

end Config

namespace FieldPolicy

/-- A step in the making of a policy. -/
inductive Change where
  | new
  | list (role : FieldRole) (fields : List String)
  | flags (f : PolicyFlags)
  /-- The policy is read from a JSON text. -/
  | json (text : String)
  /-- The policy is read from a node of a YAML document. -/
  | yaml (a : Yaml.Anchors) (n : Yaml.Node)

namespace Change

/-- The policy after the step and the names dropped, unless the text or the node is refused. -/
def apply (p : FieldPolicy) : Change → Option (FieldPolicy × List DroppedName)
  | new => some (.empty, [])
  | list role fields => some (p.set role fields)
  | flags f => some (f.apply p)
  | json text => (ofJsonText text).toOption
  | yaml a n => Config.policy? a n

/-- The step makes a new policy, whatever there was before. -/
def startsOver : Change → Bool
  | new | json _ | yaml _ _ => true
  | list _ _ | flags _ => false

/-- The name of a list in the reports of the step. -/
def label : Change → FieldRole → String
  | new | json _ | yaml _ _ => fun _ => "policy"
  | list _ _ | flags _ => FieldRole.name

/-- The lists that a step gives, in order. A list that is given can be an absent one. -/
inductive Gives : Change → List Entry → Prop
  | new : Gives new []
  | list (role : FieldRole) (fields : List String) : Gives (list role fields) [(role, some fields)]
  | flags (f : PolicyFlags) : Gives (flags f) f.entries
  | json {text : String} {es : List Entry} (h : Describes (Json.tokens text.toList) es) : Gives (json text) es
  | yaml {a : Yaml.Anchors} {n : Yaml.Node} {members : List (String × Yaml.Node)} {es : List Entry}
    (hm : Config.entries? a n = some members) (h : Config.GivesLists a members es) : Gives (yaml a n) es

theorem Gives.unique {c : Change} (h : c.Gives es) (h' : c.Gives es') : es = es' := by
  cases h with
  | new | list | flags =>
    cases h'
    rfl
  | json h =>
    cases h' with
    | json h' => exact h.unique h'
  | yaml hm h =>
    cases h' with
    | yaml hm' h' =>
      rw [hm] at hm'
      cases hm'
      exact h.unique h'

/-- What a step that gives the lists `es` does to a policy. -/
structure Effect (c : Change) (es : List Entry) (p p' : FieldPolicy) (ws : List DroppedName) : Prop where
  /-- A list that is given holds the first occurrences of its names, and any other one is what it was before, or absent
  from a new policy. -/
  lists : ∀ role, p'.get role = match es.lookup role with
    | some fields => fields.map List.eraseDups
    | none => if c.startsOver then none else p.get role
  /-- Every other occurrence of a name has one report. -/
  reports : ws = FieldPolicy.reports c.label es
  distinct : (es.map (·.1)).Nodup

/-- What is read from a stored policy starts over with the lists that it gives. -/
theorem effect_of_ofEntries {c : Change} (hover : c.startsOver = true) (hlabel : c.label = fun _ => "policy")
    (hd : (es.map (·.1)).Nodup) (h : ofEntries es = (p', ws)) : Effect c es p p' ws := by
  have hlists := fun role => get_ofEntries role es
  have hreports := reports_ofEntries es
  rw [h] at hlists hreports
  refine ⟨?_, by rw [hlabel]; exact hreports, hd⟩
  intro role
  rw [hlists role, hover]
  cases es.lookup role <;> rfl

/-- Every step has the effect of the lists that it gives. -/
theorem effect_of_apply {c : Change} (h : c.apply p = some (p', ws)) : ∃ es, c.Gives es ∧ Effect c es p p' ws := by
  cases c with
  | new =>
    cases h
    exact ⟨[], .new, fun role => get_empty role, rfl, List.nodup_nil⟩
  | list role fields =>
    rw [apply, set_eq] at h
    cases h
    refine ⟨[(role, some fields)], .list role fields, ?_, ?_, ?_⟩
    · intro role'
      rw [get_put, lookup_cons]
      split <;> rfl
    · simp [FieldPolicy.reports, label]
    · simp
  | flags f =>
    have heq : f.apply p = (p', ws) := Option.some.inj h
    have hlists := f.get_apply p
    have hreports := f.reports_apply p
    rw [heq] at hlists hreports
    refine ⟨f.entries, .flags f, ?_, hreports, f.nodup_entries⟩
    intro role
    rw [hlists role, f.lookup_entries role]
    cases f.text? role <;> rfl
  | json text =>
    have hread : ofJsonText text = .ok (p', ws) := by
      rw [apply] at h
      cases hr : ofJsonText text with
      | error e =>
        rw [hr] at h
        cases h
      | ok r =>
        rw [hr] at h
        cases h
        rfl
    obtain ⟨es, hes, heq⟩ := describes_of_ofJsonText hread
    exact ⟨es, .json hes, effect_of_ofEntries rfl rfl hes.nodup heq.symm⟩
  | yaml a n =>
    rw [apply, Config.policy?, Option.bind_eq_some_iff] at h
    obtain ⟨members, hm, h⟩ := h
    rw [Option.map_eq_some_iff] at h
    obtain ⟨es, hes, heq⟩ := h
    obtain ⟨hg, hd, -⟩ := Config.givesLists_of_policyEntries hes
    exact ⟨es, .yaml hm hg, effect_of_ofEntries rfl rfl hd heq⟩

end Change

/-! ## Histories -/

/-- The policy that the steps make from the empty one, the newest step first, with all names dropped, the oldest
first. -/
def make : List Change → Option (FieldPolicy × List DroppedName)
  | [] => some (empty, [])
  | c :: earlier => (make earlier).bind fun (p, ws) => (c.apply p).map fun (p', ws') => (p', ws ++ ws')

/-- The list that was given last for a role by steps with their lists, the newest first; what was given before a step
that starts over is forgotten. -/
def lastGiven (role : FieldRole) : List (Change × List Entry) → Option (List String)
  | [] => none
  | (c, es) :: earlier =>
    match es.lookup role with
    | some fields => fields
    | none => if c.startsOver then none else lastGiven role earlier

/-- What the steps give, and what is left of it: each list of the policy holds the names given last for it, without
repetitions, and the names dropped by all steps have been reported. -/
theorem history_of_make : ∀ {cs : List Change} {p : FieldPolicy} {ws : List DroppedName}, make cs = some (p, ws) →
    ∃ history : List (Change × List Entry), history.map (·.1) = cs ∧ (∀ x ∈ history, x.1.Gives x.2) ∧
      (∀ role, p.get role = (lastGiven role history).map List.eraseDups) ∧
      ws = history.reverse.flatMap fun x => reports x.1.label x.2
  | [], p, ws, h => by
    cases h
    exact ⟨[], rfl, by simp, fun role => get_empty role, rfl⟩
  | c :: cs, p, ws, h => by
    rw [make, Option.bind_eq_some_iff] at h
    obtain ⟨⟨p₀, ws₀⟩, h₀, h⟩ := h
    rw [Option.map_eq_some_iff] at h
    obtain ⟨⟨p₁, ws₁⟩, hstep, heq⟩ := h
    cases heq
    obtain ⟨history, hcs, hgives, hlists, rfl⟩ := history_of_make h₀
    obtain ⟨es, hg, heffect⟩ := Change.effect_of_apply hstep
    refine ⟨(c, es) :: history, by rw [List.map_cons, hcs], List.forall_mem_cons.2 ⟨hg, hgives⟩, ?_, ?_⟩
    · intro role
      rw [heffect.lists role, lastGiven]
      cases es.lookup role with
      | some fields => rfl
      | none =>
        -- not given by the newest step: given last by an earlier one, unless the newest starts over
        simp only
        split
        · rfl
        · exact hlists role
    · rw [List.reverse_cons, List.flatMap_append, List.flatMap_singleton, heffect.reports]

theorem nodup_of_make {cs : List Change} (h : make cs = some (p, ws)) {xs : List String} (hx : p.get role = some xs) :
    xs.Nodup := by
  obtain ⟨history, -, -, hlists, -⟩ := history_of_make h
  rw [hlists role, Option.map_eq_some_iff] at hx
  obtain ⟨ys, -, rfl⟩ := hx
  exact nodup_eraseDups ys

end FieldPolicy

end CompactSearch
