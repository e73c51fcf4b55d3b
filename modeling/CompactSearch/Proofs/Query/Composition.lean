/-
Queries put together from texts. A text in parentheses is read as if it stood alone, whatever stands around it, and
texts in parentheses side by side make one flat formula of what each of them spells (`parse_parenthesised`): nothing in
one part changes how another one is read, and no part is merged into the whole.
-/
import CompactSearch.Proofs.Query.Parenthesis
import CompactSearch.Proofs.Query.Reading

namespace CompactSearch.Grammar

open Lexer

variable {d : Dialect}

/-- The text is read as one atom wherever it stands. -/
def ReadsAtom (d : Dialect) (cs : List Char) (q : Query) : Prop :=
  ∀ p rest, ∃ ts, Cuts d true p cs rest ts false ∧ DerivesAtom (ts.map (·.token)) q ∧
    NestsWithin maxDepth (ts.map (·.token))

/-! ## One part -/

/-- The text in parentheses. -/
def parenthesised (s : String) : String := "(" ++ s ++ ")"

theorem toList_parenthesised (s : String) : (parenthesised s).toList = '(' :: (s.toList ++ [')']) := by
  simp [parenthesised]

/-- In parentheses, a query is an atom: the parentheses stop every lexeme, and the group nests one deeper. -/
theorem readsAtom_parenthesised {s : String} {q : Query} (h : parse d s = .ok q)
    (hs : ParensWithin (maxDepth - 1) s.toList) : ReadsAtom d (parenthesised s).toList q := by
  intro p rest
  obtain ⟨ts, b', hcut, hd, -⟩ := parse_eq_ok_iff.1 h
  have hn := nestsWithin_of_cuts hcut hs
  obtain ⟨us, hus, hmap⟩ := hcut.shift (p + 1)
  have hstops : Stops d ([')'] ++ rest) := by
    rintro c ⟨⟩
    cases d <;> decide
  have hclose : Cuts d b' (p + 1 + s.toList.length) [')'] rest [⟨.closeGroup, p + 1 + s.toList.length⟩] false :=
    .token (v := []) .closeGroup .done
  have hopen : Takes d true .openGroup ['('] (s.toList ++ [')'] ++ rest) := .openGroup
  rw [toList_parenthesised]
  refine ⟨_, .token (p := p) hopen ((hus.congr_stops hstops).append hclose), ?_⟩
  rw [List.map_cons, List.map_append, hmap]
  exact ⟨.group hd, (nestsWithin_group (balanced_disjunction hd)).2 ⟨_, rfl, hn⟩⟩

/-! ## Several parts -/

/-- Atoms joined by a separator are cut one by one, and their formulas stand side by side in whatever the separator
joins. -/
theorem cuts_joined {sep : Token} {w : String} (P : List Token → List Query → Prop)
    (hw : ∀ rest, Takes d false sep w.toList ('(' :: rest)) (hleaf : sep.precedesLeaf = true)
    (hg : sep ≠ .openGroup) (one : ∀ {ts q}, DerivesAtom ts q → P ts [q])
    (cons : ∀ {ts us q qs}, DerivesAtom ts q → P us qs → P (ts ++ sep :: us) (q :: qs)) :
    ∀ (x : String × Query) (xs : List (String × Query)) (p : Nat),
      (∀ y ∈ x :: xs, ReadsAtom d (parenthesised y.1).toList y.2) →
        ∃ ts, Cuts d true p (w.intercalate ((x :: xs).map (parenthesised ·.1))).toList [] ts false ∧
          P (ts.map (·.token)) ((x :: xs).map (·.2)) ∧ NestsWithin maxDepth (ts.map (·.token))
  | x, [], p, h => by
    obtain ⟨ts, hts, ha, hn⟩ := h x List.mem_cons_self p []
    exact ⟨ts, by simpa using hts, one ha, hn⟩
  | x, y :: xs, p, h => by
    have hc : sep ≠ .closeGroup := by rintro rfl; cases hleaf
    -- the separator looks one character ahead, and the next part starts with its parenthesis
    set n := (parenthesised x.1).toList.length
    obtain ⟨us, hus, hP, hnu⟩ := cuts_joined P hw hleaf hg one cons y xs (p + n + w.toList.length)
      fun z hz => h z (List.mem_cons_of_mem x hz)
    set tail := (w.intercalate ((y :: xs).map (parenthesised ·.1))).toList with htail
    obtain ⟨r, hr⟩ : ∃ r, tail = '(' :: r := by
      cases xs <;> exact ⟨_, by simp [htail, toList_parenthesised]; rfl⟩
    obtain ⟨ts, hts, ha, hnt⟩ := h x List.mem_cons_self p (w.toList ++ tail)
    have hsep : Cuts d false (p + n) (w.toList ++ tail) [] (⟨sep, p + n⟩ :: us) false :=
      .token (by rw [List.append_nil, hr]; exact hw r) (by rwa [hleaf])
    rw [← List.append_nil (w.toList ++ tail)] at hts
    refine ⟨_, by simpa [htail] using hts.append hsep, ?_⟩
    rw [List.map_append, List.map_cons]
    exact ⟨cons ha hP, (nestsWithin_separated (balanced_atom ha) hg hc).2 ⟨hnt, hnu⟩⟩

/-! ## Queries in parentheses -/

/-- Queries compose: in parentheses, each is read with the formula that it has alone, and several of them side by side
make one conjunction, or one disjunction, of these formulas in order. The parentheses of a part may nest as deep as one
more pair around them allows. -/
theorem parse_parenthesised (d : Dialect) (parts : List (String × Query))
    (h : ∀ x ∈ parts, parse d x.1 = .ok x.2 ∧ ParensWithin (maxDepth - 1) x.1.toList) :
    (∀ x ∈ parts, parse d (parenthesised x.1) = .ok x.2) ∧
    (2 ≤ parts.length →
      parse d (" ".intercalate (parts.map (parenthesised ·.1))) = .ok (.all (parts.map (·.2))) ∧
      parse d (" OR ".intercalate (parts.map (parenthesised ·.1))) = .ok (.any (parts.map (·.2)))) := by
  have hatom : ∀ x ∈ parts, ReadsAtom d (parenthesised x.1).toList x.2 := fun x hx =>
    readsAtom_parenthesised (h x hx).1 (h x hx).2
  refine ⟨fun x hx => ?_, fun h2 => ?_⟩
  · obtain ⟨ts, hts, ha, hn⟩ := hatom x hx 0 []
    exact parse_eq_ok_iff.2 ⟨ts, _, hts, .single (.single ha), hn⟩
  · cases parts with
    | nil => cases h2
    | cons x xs =>
      have hlen : 2 ≤ ((x :: xs).map (·.2)).length := by rwa [List.length_map]
      constructor
      · have hspace : ∀ rest, Takes d false .space " ".toList ('(' :: rest) := fun rest => .space (by simp)
        obtain ⟨ts, hts, hd, hn⟩ :=
          cuts_joined DerivesConjuncts hspace rfl (by decide) .one derivesConjuncts_cons x xs 0 hatom
        exact parse_eq_ok_iff.2 ⟨ts, _, hts, .single (.flat hd hlen), hn⟩
      · have hor : ∀ rest, Takes d false .or " OR ".toList ('(' :: rest) := fun rest => .or
        obtain ⟨ts, hts, hd, hn⟩ := cuts_joined DerivesDisjuncts hor rfl (by decide) (fun ha => .one (.single ha))
          (fun ha => derivesDisjuncts_cons (.single ha)) x xs 0 hatom
        exact parse_eq_ok_iff.2 ⟨ts, _, hts, .flat hd hlen, hn⟩

/-- The parts end where a lexeme could go on, in an `OR` without its space and in a comparison, and one starts with a
dash. -/
theorem parse_parenthesised_or_dash :
    let parts : List (String × Query) :=
      [("a OR", .all [.atom (.bare (.string "a") false), .atom (.bare (.string "OR") false)]),
        ("-b>1", .atom (.keyed "b" .gt (.ofRun "1") true))]
    (∀ x ∈ parts, parse .document x.1 = .ok x.2 ∧ ParensWithin (maxDepth - 1) x.1.toList) ∧
      parse .document "(-b>1)" = .ok (.atom (.keyed "b" .gt (.ofRun "1") true)) ∧
      parse .document "(a OR) (-b>1)" = .ok (.all (parts.map (·.2))) ∧
      parse .document "(a OR) OR (-b>1)" = .ok (.any (parts.map (·.2))) := by
  intro parts
  have h : ∀ x ∈ parts, parse .document x.1 = .ok x.2 ∧ ParensWithin (maxDepth - 1) x.1.toList := by
    decide +kernel
  obtain ⟨hone, hmany⟩ := parse_parenthesised .document parts h
  exact ⟨h, hone ("-b>1", _) (by simp [parts]), hmany (by decide)⟩

end CompactSearch.Grammar
