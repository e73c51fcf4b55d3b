/-
Configurations written and read back. What is written is a mapping with a member for each policy and one for the rule
for relative dates, and a policy is a mapping with a member for each list that is present (`toYaml_eq`). The reading
of mappings gives the nodes of these members, and from them every list gets its names in order. So what is saved at a
path is loaded from there as the same configuration, and nothing is reported (`load_save`).
-/
import CompactSearch.Proofs.Config.File
import CompactSearch.Proofs.Config.Policies
import CompactSearch.Proofs.Policy.RoundTrip
import CompactSearch.Proofs.Yaml.Document

namespace CompactSearch

namespace Config

open Yaml (Anchors IsKey Member Node Printable itemLines memberLines textNode)

variable {c : Config} {p : FieldPolicy} {a : Anchors}

/-! ## Writing -/

/-- A list of a policy as a member of a mapping. -/
def listMember (l : FieldRole × List String) : Member where
  key := l.1.name.toList
  text := if l.2.isEmpty then " []\n".toList else '\n' :: itemLines 2 l.2
  node := .sequence (l.2.map textNode)

/-- A policy as a member of a mapping. -/
def policyMember (b : Backend) (p : FieldPolicy) : Member where
  key := b.name.toList
  text := if p.lists.isEmpty then " \x7b\x7d\n".toList else '\n' :: memberLines 2 (p.lists.map listMember)
  node := .mapping ((p.lists.map listMember).map Member.pair)

/-- The rule for relative dates as a member of a mapping. -/
def dateMember (o : Sql.DateOverride) : Member where
  key := "dateOverride".toList
  text := ' ' :: o.name.toList ++ ['\n']
  node := .scalar none true o.name

/-- The members of a configuration. -/
def members (c : Config) : List Member :=
  [policyMember .document c.document, policyMember .relational c.relational, dateMember c.dateOverride]

theorem listLines_eq (l : FieldRole × List String) :
    listLines l.1 l.2 = Yaml.spaces 2 ++ ((listMember l).key ++ ':' :: (listMember l).text) := by
  simp [listLines, listMember, Yaml.spaces, itemLines]

theorem policyLines_eq (b : Backend) (p : FieldPolicy) :
    policyLines b p = (policyMember b p).key ++ ':' :: (policyMember b p).text := by
  have hlists : (p.lists.flatMap fun l => listLines l.1 l.2) = memberLines 2 (p.lists.map listMember) := by
    rw [memberLines, List.flatMap_map]
    exact congrArg (List.flatMap · p.lists) (funext listLines_eq)
  rw [policyLines, policyMember, ← hlists, List.append_assoc]
  rfl

theorem toYaml_eq (c : Config) : c.toYaml = String.ofList (memberLines 0 c.members) := by
  have hdate : "dateOverride: ".toList ++ c.dateOverride.name.toList ++ ['\n'] =
      (dateMember c.dateOverride).key ++ ':' :: (dateMember c.dateOverride).text := rfl
  have hlines : memberLines 0 c.members = policyLines .document c.document ++ (policyLines .relational c.relational ++
      ((dateMember c.dateOverride).key ++ ':' :: (dateMember c.dateOverride).text)) := by
    rw [policyLines_eq, policyLines_eq]
    simp only [memberLines, members, List.flatMap_cons, List.flatMap_nil, List.append_nil, Yaml.spaces,
      List.replicate_zero, List.nil_append]
  rw [hlines, ← hdate, toYaml]
  simp only [List.append_assoc]

/-! ## The members -/

theorem isKey_role (role : FieldRole) : IsKey role.name.toList := by
  cases role <;> decide

theorem isKey_backend (b : Backend) : IsKey b.name.toList := by
  cases b <;> decide

theorem isKey_dateRule (o : Sql.DateOverride) : IsKey o.name.toList := by
  cases o <;> decide

theorem isKey_dateOverride : IsKey "dateOverride".toList := by
  decide

theorem reads_listMember (l : FieldRole × List String) : (listMember l).Reads 3 where
  isKey := isKey_role l.1
  value := by
    obtain ⟨role, xs⟩ := l
    cases xs with
    | nil => exact Yaml.readsValue_brackets true
    | cons x xs => exact Yaml.readsValue_items (by decide) (List.cons_ne_nil x xs)

theorem reads_policyMember (b : Backend) (p : FieldPolicy) : (policyMember b p).Reads 1 where
  isKey := isKey_backend b
  value := by
    rw [policyMember]
    cases hlists : p.lists with
    | nil => exact Yaml.readsValue_brackets false
    | cons l ls =>
      refine Yaml.readsValue_members (by decide) (by simp) ?_
      intro m hm
      obtain ⟨l', -, rfl⟩ := List.mem_map.1 hm
      exact reads_listMember l'

theorem reads_dateMember (o : Sql.DateOverride) : (dateMember o).Reads 1 where
  isKey := isKey_dateOverride
  value := Yaml.readsValue_word (isKey_dateRule o)

theorem reads_members (c : Config) : ∀ m ∈ c.members, m.Reads 1 := by
  simp only [members, List.forall_mem_cons, List.not_mem_nil, false_imp_iff, implies_true, and_true]
  exact ⟨reads_policyMember .document c.document, reads_policyMember .relational c.relational,
    reads_dateMember c.dateOverride⟩

theorem printable_listMember (l : FieldRole × List String) : Printable (listMember l).text := by
  have hbrackets : Printable " []\n".toList := by decide
  rw [listMember]
  split
  · exact hbrackets
  · exact Yaml.printable_cons rfl (Yaml.printable_itemLines 2 l.2)

theorem printable_policyMember (b : Backend) (p : FieldPolicy) : Printable (policyMember b p).text := by
  have hbrackets : Printable " \x7b\x7d\n".toList := by decide
  rw [policyMember]
  split
  · exact hbrackets
  · refine Yaml.printable_cons rfl (Yaml.printable_memberLines 2 ?_ ?_)
    · simp only [List.forall_mem_map]
      exact fun l _ => isKey_role l.1
    · simp only [List.forall_mem_map]
      exact fun l _ => printable_listMember l

theorem printable_dateMember (o : Sql.DateOverride) : Printable (dateMember o).text := by
  cases o <;> decide

theorem printable_members (c : Config) : Printable (memberLines 0 c.members) := by
  refine Yaml.printable_memberLines 0 (fun m hm => (reads_members c m hm).isKey) ?_
  simp only [members, List.forall_mem_cons, List.not_mem_nil, false_imp_iff, implies_true, and_true]
  exact ⟨printable_policyMember .document c.document, printable_policyMember .relational c.relational,
    printable_dateMember c.dateOverride⟩

/-- The document that is read is the mapping of the members. -/
theorem read?_toYaml (c : Config) :
    Yaml.Document.read? c.toYaml = some (some ⟨.mapping (c.members.map Member.pair), {}⟩) := by
  rw [toYaml_eq]
  exact Yaml.read?_members (reads_members c) (printable_members c)

/-! ## Reading -/

theorem scalarText?_textNode (xs : List String) : (xs.map textNode).mapM (scalarText? a) = some xs := by
  induction xs with
  | nil => rfl
  | cons x xs ih =>
    rw [List.map_cons, List.mapM_cons, ih]
    rfl

theorem nameList?_listMember (l : FieldRole × List String) : nameList? a (listMember l).node = some (some l.2) := by
  have hresolve : a.resolve (listMember l).node = some (.sequence (l.2.map textNode)) := rfl
  rw [nameList?, hresolve]
  simp only [scalarText?_textNode, Option.map_some]

theorem resolve_mapping (es : List (Node × Node)) : a.resolve (.mapping es) = some (.mapping es) := rfl

theorem entries?_members (ms : List Member) :
    entries? a (.mapping (ms.map Member.pair)) = some (ms.map fun m => (String.ofList m.key, m.node)) := by
  rw [entries?, resolve_mapping]
  simp only
  induction ms with
  | nil => rfl
  | cons m ms ih =>
    rw [List.map_cons, List.mapM_cons, ih]
    rfl

/-- The lists of a policy are read in order, if their roles differ. -/
theorem policyEntries?_lists : ∀ {ls : List (FieldRole × List String)} {seen : List FieldRole},
    (ls.map (·.1)).Nodup → (∀ role ∈ ls.map (·.1), role ∉ seen) →
      policyEntries? a seen (ls.map fun l => (l.1.name, (listMember l).node)) =
        some (ls.map fun l => (l.1, some l.2))
  | [], _, _, _ => rfl
  | l :: ls, seen, hnodup, hseen => by
    obtain ⟨hl, hnodup'⟩ := List.nodup_cons.1 hnodup
    have hrole : FieldRole.ofKey? l.1.name = some l.1 := by cases l.1 <;> decide
    have hseen' : ∀ role ∈ ls.map (·.1), role ∉ l.1 :: seen := by
      intro role hrole hmem
      rcases List.mem_cons.1 hmem with rfl | hmem
      · exact hl hrole
      · exact hseen role (List.mem_cons_of_mem _ hrole) hmem
    rw [List.map_cons, policyEntries?, hrole]
    simp only
    rw [if_neg (hseen l.1 List.mem_cons_self), nameList?_listMember, policyEntries?_lists hnodup' hseen']
    rfl

theorem policy?_policyMember (b : Backend) (h : p.Distinct) : policy? a (policyMember b p).node = some (p, []) := by
  have hlists : policyEntries? a [] (p.lists.map fun l => (l.1.name, (listMember l).node)) = some p.entries :=
    policyEntries?_lists p.nodup_lists (by simp)
  have hentries : entries? a (policyMember b p).node = some (p.lists.map fun l => (l.1.name, (listMember l).node)) := by
    rw [policyMember, entries?_members, List.map_map]
    refine congrArg some (List.map_congr_left fun l _ => ?_)
    simp only [Function.comp_apply, listMember, String.ofList_toList]
  rw [policy?, hentries, Option.bind_some, hlists, Option.map_some, FieldPolicy.ofEntries_entries h]

theorem dateOverride?_dateMember (o : Sql.DateOverride) : dateOverride? a (dateMember o).node = some o := by
  cases o <;> rfl

/-- A key that is met for the first time and reports nothing. -/
theorem ofEntries?_cons {seen : List Key} {key : Key} {name : String} {v : Node} {c' : Config}
    {rest : List (String × Node)} (hname : Key.ofName? name = some key) (hseen : key ∉ seen)
    (hset : c.setKey? a v key = some (c', [])) :
    ofEntries? a seen c ((name, v) :: rest) = ofEntries? a (key :: seen) c' rest := by
  rw [ofEntries?, hname]
  simp only
  rw [if_neg hseen, hset]
  exact Option.map_id'

/-- A configuration without repeated names is what its text is read as. -/
theorem read?_eq (h : ∀ b, (c.policy b).Distinct) : read? c.toYaml = some (c, []) := by
  obtain ⟨document, relational, dateOverride⟩ := c
  have hd : document.Distinct := h .document
  have hr : relational.Distinct := h .relational
  have hdocument : default.setKey? {} (policyMember .document document).node (.policy .document) =
      some ({ document := document }, []) := by
    rw [setKey?, policy?_policyMember .document hd]
    rfl
  have hrelational : Config.setKey? { document := document } {} (policyMember .relational relational).node
      (.policy .relational) = some ({ document := document, relational := relational }, []) := by
    rw [setKey?, policy?_policyMember .relational hr]
    rfl
  have hdate : Config.setKey? { document := document, relational := relational } {} (dateMember dateOverride).node
      .dateOverride = some (⟨document, relational, dateOverride⟩, []) := by
    rw [setKey?, dateOverride?_dateMember]
    rfl
  rw [read?, read?_toYaml]
  simp only
  rw [entries?_members, Option.bind_some, members]
  simp only [List.map_cons, List.map_nil]
  rw [ofEntries?_cons rfl (by decide) hdocument, ofEntries?_cons rfl (by decide) hrelational,
    ofEntries?_cons rfl (by decide) hdate, ofEntries?]

/-- No list holds a name twice or a name of white space only. -/
def Clean (c : Config) : Prop :=
  ∀ b role xs, (c.policy b).get role = some xs → xs.Nodup ∧ ∀ x ∈ xs, Text.trimChars x.toList ≠ []

theorem clean_of_accepted {ws : List DroppedName} (h : Accepted c ws) : c.Clean := by
  obtain ⟨wd, wr, ⟨cs, hd⟩, ⟨cs', hr⟩, -⟩ := make_of_accepted h
  intro b role xs hget
  constructor
  · cases b with
    | document => exact FieldPolicy.distinct_of_make hd role xs hget
    | relational => exact FieldPolicy.distinct_of_make hr role xs hget
  · have hblank := not_blank_of_accepted h b role
    rw [hget] at hblank
    exact hblank

/-- The text of a clean configuration is read as the configuration. -/
theorem ofYaml_toYaml (h : c.Clean) : ofYaml c.toYaml = .ok (c, []) := by
  have hdistinct : ∀ b, (c.policy b).Distinct := fun b role xs hget => (h b role xs hget).1
  have hblank : c.blankField? = none := by
    rw [blankField?_eq_none_iff]
    intro b role x hx
    cases hget : (c.policy b).get role with
    | none =>
      rw [hget] at hx
      cases hx
    | some xs =>
      rw [hget] at hx
      exact (h b role xs hget).2 x hx
  rw [ofYaml, read?_eq hdistinct]
  simp only [hblank]

/-! ## Files -/

/-- A configuration that is saved is loaded as it is. The configurations that have been read from a text or loaded
from a path are the clean ones, and a clean one is written wherever a file can be written; what stands there then is
loaded as the same configuration, with its names letter by letter and in order, and nothing is reported. -/
theorem load_save : (∀ c : Config, c.Clean ↔ ∃ ws, Accepted c ws) ∧
    ∀ c : Config, c.Clean → ∀ (t : FileTree) (path : String), t.writeError? path = none →
      ∃ t', c.save t path = .ok t' ∧ load t' path = .ok (c, []) := by
  constructor
  · intro c
    constructor
    · exact fun hc => ⟨[], .inl ⟨c.toYaml, ofYaml_toYaml hc⟩⟩
    · rintro ⟨ws, h⟩
      exact clean_of_accepted h
  · intro c hc t path hpath
    refine ⟨t.put path (.text c.toYaml), by rw [save, hpath], ?_⟩
    rw [load, FileTree.read?_put hpath, ofContent]
    simp only [ofYaml_toYaml hc]

/-- Names that look like a number, null, a mapping, an item and a comment, one with an apostrophe, one with a control
character, one of two lines and one with a line separator. -/
theorem load_save_lookalikes :
    let names := ["123", "null", "a: b", "- x", "a #b", "it's", "\x01\"", "a\n b\n", "\u2028c"]
    let c : Config := { document := { any := some names, isString := some [] }, dateOverride := .defaultOperatorOnly }
    let t : FileTree := ⟨[(["conf"], .directory)]⟩
    c.Clean ∧ (∃ ws, Accepted c ws) ∧ t.writeError? "conf/search.yaml" = none ∧
      ∃ t', c.save t "conf/search.yaml" = .ok t' ∧ load t' "conf/search.yaml" = .ok (c, []) := by
  intro names c t
  have hnames : names.Nodup ∧ ∀ x ∈ names, Text.trimChars x.toList ≠ [] := by decide +kernel
  have hc : c.Clean := by
    intro b role xs hget
    cases b <;> cases role <;> cases hget
    · exact hnames
    · exact ⟨List.nodup_nil, by simp⟩
  have hpath : t.writeError? "conf/search.yaml" = none := by decide +kernel
  exact ⟨hc, (load_save.1 c).1 hc, hpath, load_save.2 c hc t _ hpath⟩

end Config

end CompactSearch
