/-
The policies of an accepted configuration. Each of the two is made in one step from the node at its key, or is the empty
policy if there is none (`made_of_read`), and none of their lists has a blank name. The flags of the command line bring
none in, because they trim every name and leave out the ones of which nothing is left (`not_blank_of_flags`).
-/
import CompactSearch.Proofs.Policy.FieldList
import CompactSearch.Proofs.Policy.History

namespace CompactSearch

/-! ## Blank names -/

theorem not_blank_of_fieldList {s x : String} (h : x ∈ fieldList s) : Text.trimChars x.toList ≠ [] := by
  have hx := isFieldName_of_mem h
  rw [hx.trimmed.trimChars_eq]
  exact hx.ne_nil

namespace Config

open FieldPolicy (Change make)

variable {c c' : Config} {ws : List DroppedName} {a : Yaml.Anchors}

/-- A configuration that has been read from a text or loaded from a path, with the names dropped. -/
def Accepted (c : Config) (ws : List DroppedName) : Prop :=
  (∃ s, ofYaml s = .ok (c, ws)) ∨ ∃ t path, load t path = .ok (c, ws)

theorem read_of_ofYaml {s : String} (h : ofYaml s = .ok (c, ws)) :
    read? s = some (c, ws) ∧ c.blankField? = none := by
  unfold ofYaml at h
  split at h
  · cases h
  · rename_i c₀ ws₀ hread
    split at h
    · cases h
    · rename_i hblank
      cases h
      exact ⟨hread, hblank⟩

/-- A configuration is the default one, or it has been read from a text. -/
theorem default_or_ofYaml (h : Accepted c ws) : (c = default ∧ ws = []) ∨ ∃ s, ofYaml s = .ok (c, ws) := by
  rcases h with h | ⟨t, path, h⟩
  · exact .inr h
  · unfold load ofContent at h
    split at h
    · cases h
      exact .inl ⟨rfl, rfl⟩
    · cases h
    · split at h
      · cases h
      · rename_i s _ _ _ hyaml
        cases h
        exact .inr ⟨s, hyaml⟩

theorem blankField?_eq_none_iff : c.blankField? = none ↔
    ∀ b role, ∀ x ∈ ((c.policy b).get role).getD [], Text.trimChars x.toList ≠ [] := by
  unfold blankField?
  simp only [List.findSome?_eq_none_iff, Option.map_eq_none_iff, List.find?_eq_none, List.any_eq_true,
    Text.isBlankText_iff, not_exists, not_and]
  constructor
  · intro h b role
    exact h b (by cases b <;> simp) role (by cases role <;> simp [FieldRole.every])
  · intro h b _ role _
    exact h b role

theorem not_blank_of_accepted (h : Accepted c ws) (b : Backend) (role : FieldRole) :
    ∀ x ∈ ((c.policy b).get role).getD [], Text.trimChars x.toList ≠ [] := by
  rcases default_or_ofYaml h with ⟨rfl, -⟩ | ⟨s, h⟩
  · cases b <;> cases role <;> simp [default, policy, FieldPolicy.get]
  · exact blankField?_eq_none_iff.1 (read_of_ofYaml h).2 b role

/-- Flags put no blank name into a policy that has none. -/
theorem not_blank_of_flags {p : FieldPolicy} (f : CommandLine.PolicyFlags)
    (hp : ∀ role, ∀ x ∈ (p.get role).getD [], Text.trimChars x.toList ≠ []) (role : FieldRole) :
    ∀ x ∈ ((f.apply p).1.get role).getD [], Text.trimChars x.toList ≠ [] := by
  rw [f.get_apply p role]
  cases f.text? role with
  | none => exact hp role
  | some s =>
    intro x hx
    exact not_blank_of_fieldList (List.mem_eraseDups.1 hx)

/-! ## Where the policies come from -/

/-- The policy of one backend is the one before, or it has been read from the node at its key. -/
def ReadsPolicy (a : Yaml.Anchors) (seen : List Key) (b : Backend) (c c' : Config) (ws : List DroppedName) : Prop :=
  (c'.policy b = c.policy b ∧ ws = []) ∨ (.policy b ∉ seen ∧ ∃ n, policy? a n = some (c'.policy b, ws))

theorem ReadsPolicy.weaken {seen : List Key} {key : Key} {b : Backend} {c₁ : Config}
    (h : ReadsPolicy a (key :: seen) b c₁ c' ws) (hc : c₁.policy b = c.policy b) : ReadsPolicy a seen b c c' ws := by
  rcases h with ⟨hp, hws⟩ | ⟨hnew, hread⟩
  · exact .inl ⟨hp.trans hc, hws⟩
  · exact .inr ⟨fun hmem => hnew (List.mem_cons_of_mem key hmem), hread⟩

/-- A key that has been met leaves its policy as it is. -/
theorem ReadsPolicy.same {seen : List Key} {b : Backend} (h : ReadsPolicy a (.policy b :: seen) b c c' ws) :
    c'.policy b = c.policy b ∧ ws = [] := by
  rcases h with h | ⟨hnew, -⟩
  · exact h
  · exact absurd List.mem_cons_self hnew

/-- A key sets its own policy. -/
theorem policy_of_setKey {n : Yaml.Node} {b : Backend} (h : c.setKey? a n (.policy b) = some (c', ws)) :
    policy? a n = some (c'.policy b, ws) ∧ ∀ b', b' ≠ b → c'.policy b' = c.policy b' := by
  cases b with
  | document =>
    obtain ⟨⟨p, ws'⟩, hread, heq⟩ := Option.map_eq_some_iff.1 h
    cases heq
    refine ⟨hread, ?_⟩
    intro b' hb
    cases b' with
    | document => exact absurd rfl hb
    | relational => rfl
  | relational =>
    obtain ⟨⟨p, ws'⟩, hread, heq⟩ := Option.map_eq_some_iff.1 h
    cases heq
    refine ⟨hread, ?_⟩
    intro b' hb
    cases b' with
    | document => rfl
    | relational => exact absurd rfl hb

theorem policies_of_setKey_date {n : Yaml.Node} (h : c.setKey? a n .dateOverride = some (c', ws)) :
    ws = [] ∧ ∀ b, c'.policy b = c.policy b := by
  obtain ⟨o, -, heq⟩ := Option.map_eq_some_iff.1 h
  cases heq
  refine ⟨rfl, ?_⟩
  intro b
  cases b <;> rfl

theorem policies_of_ofEntries : ∀ {members : List (String × Yaml.Node)} {seen : List Key} {c : Config}
    {ws : List DroppedName}, ofEntries? a seen c members = some (c', ws) →
      ∃ wd wr, ReadsPolicy a seen .document c c' wd ∧ ReadsPolicy a seen .relational c c' wr ∧
        (ws = wd ++ wr ∨ ws = wr ++ wd)
  | [], seen, c, ws, h => by
    cases h
    exact ⟨[], [], .inl ⟨rfl, rfl⟩, .inl ⟨rfl, rfl⟩, .inl rfl⟩
  | (name, v) :: members, seen, c, ws, h => by
    unfold ofEntries? at h
    split at h
    · exact policies_of_ofEntries h
    · rename_i key _
      split at h
      · cases h
      · rename_i hnew
        split at h
        · cases h
        · rename_i c₁ ws₁ hset
          rw [Option.map_eq_some_iff] at h
          obtain ⟨⟨c₂, ws₂⟩, hrest, heq⟩ := h
          cases heq
          obtain ⟨wd, wr, hd, hr, hws⟩ := policies_of_ofEntries hrest
          -- the key is not met again, so its policy is the one that is set here
          cases key with
          | policy b =>
            obtain ⟨hread, hsame⟩ := policy_of_setKey hset
            cases b with
            | document =>
              obtain ⟨hp, rfl⟩ := hd.same
              rw [← hp] at hread
              refine ⟨ws₁, wr, .inr ⟨hnew, v, hread⟩, hr.weaken (hsame .relational (by decide)), .inl ?_⟩
              simpa using hws
            | relational =>
              obtain ⟨hp, rfl⟩ := hr.same
              rw [← hp] at hread
              refine ⟨wd, ws₁, hd.weaken (hsame .document (by decide)), .inr ⟨hnew, v, hread⟩, .inr ?_⟩
              simpa using hws
          | dateOverride =>
            obtain ⟨rfl, hsame⟩ := policies_of_setKey_date hset
            exact ⟨wd, wr, hd.weaken (hsame .document), hr.weaken (hsame .relational), hws⟩

theorem make_of_readsPolicy {seen : List Key} {b : Backend} (h : ReadsPolicy a seen b default c ws) :
    ∃ cs, make cs = some (c.policy b, ws) := by
  rcases h with ⟨hp, rfl⟩ | ⟨-, n, hread⟩
  · refine ⟨[], ?_⟩
    rw [hp]
    cases b <;> rfl
  · exact ⟨[.yaml a n], by simp [make, Change.apply, hread]⟩

/-- Each policy of an accepted configuration has a history, and the configuration has the reports of both. -/
theorem make_of_accepted (h : Accepted c ws) : ∃ wd wr, (∃ cs, make cs = some (c.document, wd)) ∧
    (∃ cs, make cs = some (c.relational, wr)) ∧ (ws = wd ++ wr ∨ ws = wr ++ wd) := by
  have hdefault : ∃ wd wr, (∃ cs, make cs = some (default.document, wd)) ∧
      (∃ cs, make cs = some (default.relational, wr)) ∧ (([] : List DroppedName) = wd ++ wr ∨ [] = wr ++ wd) :=
    ⟨[], [], ⟨[], rfl⟩, ⟨[], rfl⟩, .inl rfl⟩
  rcases default_or_ofYaml h with ⟨rfl, rfl⟩ | ⟨s, h⟩
  · exact hdefault
  · have hread := (read_of_ofYaml h).1
    unfold read? at hread
    split at hread
    · cases hread
    · cases hread
      exact hdefault
    · rw [Option.bind_eq_some_iff] at hread
      obtain ⟨members, -, hentries⟩ := hread
      obtain ⟨wd, wr, hd, hr, hws⟩ := policies_of_ofEntries hentries
      exact ⟨wd, wr, make_of_readsPolicy hd, make_of_readsPolicy hr, hws⟩

end Config

/-- Every policy is clean, however it is made. A step gives some of the lists, and which ones it gives is determined; it
puts the first occurrences of the names given in their place, leaves the other lists as they are or starts over without
them, and reports every other occurrence once. So after any history each list holds the distinct names that were given
last. The policies of a configuration have such histories, and whatever the flags add, none of their names is blank. -/
theorem FieldPolicy.clean_of_history :
    (∀ c p p' ws, Change.apply p c = some (p', ws) →
      ∃ es, c.Gives es ∧ (∀ es', c.Gives es' → es' = es) ∧ c.Effect es p p' ws) ∧
    (∀ cs p ws, make cs = some (p, ws) → ∃ history, history.map (·.1) = cs ∧ (∀ x ∈ history, x.1.Gives x.2) ∧
      (∀ role, p.get role = (lastGiven role history).map List.eraseDups) ∧
      (∀ role xs, p.get role = some xs → xs.Nodup) ∧ ws = history.reverse.flatMap fun x => reports x.1.label x.2) ∧
    (∀ c ws, Config.Accepted c ws →
      (∃ wd wr, (∃ cs, make cs = some (c.document, wd)) ∧ (∃ cs, make cs = some (c.relational, wr)) ∧
        (ws = wd ++ wr ∨ ws = wr ++ wd)) ∧
      ∀ (f : CommandLine.PolicyFlags) (b : Backend) (role : FieldRole) (xs : List String),
        (f.apply (c.policy b)).1.get role = some xs → ∀ x ∈ xs, Text.trimChars x.toList ≠ []) := by
  refine ⟨?_, ?_, ?_⟩
  · intro c p p' ws h
    obtain ⟨es, hg, heffect⟩ := Change.effect_of_apply h
    exact ⟨es, hg, fun es' hg' => hg'.unique hg, heffect⟩
  · intro cs p ws h
    obtain ⟨history, hcs, hgives, hlists, hws⟩ := history_of_make h
    exact ⟨history, hcs, hgives, hlists, fun role xs hx => nodup_of_make h hx, hws⟩
  · intro c ws h
    refine ⟨Config.make_of_accepted h, ?_⟩
    intro f b role xs hx
    have hnames := Config.not_blank_of_flags f (Config.not_blank_of_accepted h b) role
    rw [hx] at hnames
    exact hnames

/-- A stored policy, flags that replace its first list, and an empty list for the dates; and flags for a configuration
that repeats a name. -/
theorem FieldPolicy.clean_of_history_mixed :
    make [.list .isDate [], .flags ⟨some " b,, a,b ", some "", none⟩, .json "[[\"a\",\"b\",\"a\"],null]"] =
        some (⟨some ["b", "a"], some [], some []⟩, [⟨"policy", "a"⟩, ⟨"any", "b"⟩]) ∧
      (∃ history : List (Change × List Policy.Entry), history.length = 3 ∧
        some ["b", "a"] = (lastGiven .any history).map List.eraseDups) ∧
      Config.ofYaml "document:\n  any: [b, a, b]\n" =
        .ok ({ document := { any := some ["b", "a"] } }, [⟨"policy", "b"⟩]) ∧
      ((⟨none, some " x ,\t, y", none⟩ : CommandLine.PolicyFlags).apply { any := some ["b", "a"] }).1.get .isString =
        some ["x", "y"] ∧
      ∀ x ∈ ["x", "y"], Text.trimChars x.toList ≠ [] := by
  obtain ⟨-, hmake, haccepted⟩ := FieldPolicy.clean_of_history
  have h : make [.list .isDate [], .flags ⟨some " b,, a,b ", some "", none⟩, .json "[[\"a\",\"b\",\"a\"],null]"] =
      some (⟨some ["b", "a"], some [], some []⟩, [⟨"policy", "a"⟩, ⟨"any", "b"⟩]) := by decide +kernel
  have hc : Config.ofYaml "document:\n  any: [b, a, b]\n" =
      .ok ({ document := { any := some ["b", "a"] } }, [⟨"policy", "b"⟩]) := by decide +kernel
  have hflags : ((⟨none, some " x ,\t, y", none⟩ : CommandLine.PolicyFlags).apply { any := some ["b", "a"] }).1.get
      .isString = some ["x", "y"] := by decide +kernel
  obtain ⟨history, hcs, -, hlists, -⟩ := hmake _ _ _ h
  refine ⟨h, ⟨history, ?_, hlists .any⟩, hc, hflags, ?_⟩
  · simpa using congrArg List.length hcs
  · exact (haccepted _ _ (.inl ⟨_, hc⟩)).2 _ .document .isString _ hflags

end CompactSearch
