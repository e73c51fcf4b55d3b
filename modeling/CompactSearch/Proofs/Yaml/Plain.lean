/-
Plain scalars read back. Text without a break is taken whole, up to what follows it, unless a comment, a colon or a
document mark seems to start inside it (`plain_append`); a key ends in front of its colon (`plain_colon`), and the last
scalar of a line in front of the next line (`plain_newline`).
-/
import CompactSearch.Proofs.Yaml.Line

namespace CompactSearch.Yaml

namespace ScannedPlain

variable {cs ds : List Char} {s : ScannedPlain}

theorem prepend_prepend : (s.prepend ds).prepend cs = s.prepend (cs ++ ds) := by
  simp [prepend]

end ScannedPlain

variable {indent : Nat} {cs r t : List Char} {p : Position}

/-- A text on one line is taken whole, with the blanks in front of it. The induction carries the blanks that have been
met since the last word, which are lost if no word follows. -/
theorem plain_append : ∀ {cs blanks : List Char} {p : Position}, (∀ c ∈ cs, isBreak c = false) →
    (cs = [] → blanks = []) → (∀ c ∈ cs.getLast?, isBlank c = false) →
    hasInnerIndicator (!blanks.isEmpty) cs = false → (p.column = 0 → isMarker (cs ++ r) = false) →
      plain false indent (.inline blanks) p (cs ++ r) =
        (plain false indent .empty (p.right cs.length) r).map (.prepend (blanks.reverse ++ cs))
  | [], blanks, p, _, hnil, _, _, _ => by
    obtain rfl := hnil rfl
    exact Option.map_id'.symm
  | c :: cs, blanks, p, hline, _, hlast, hinner, hmarker => by
    have hbreak := hline c List.mem_cons_self
    have hline' : ∀ d ∈ cs, isBreak d = false := fun d hd => hline d (List.mem_cons_of_mem c hd)
    have hlast' : ∀ d ∈ cs.getLast?, isBlank d = false := by
      intro d hd
      refine hlast d ?_
      rw [List.getLast?_cons, hd]
      rfl
    simp only [hasInnerIndicator, Bool.or_eq_false_iff] at hinner
    obtain ⟨⟨hcolon, hsharp⟩, hinner⟩ := hinner
    have hlength : p.right (c :: cs).length = (p.after c).right cs.length := by
      rw [Position.after_of_not_isBreak hbreak, Position.right_right, List.length_cons, Nat.add_comm]
    have hcolumn : (p.after c).column ≠ 0 := by
      rw [Position.after_of_not_isBreak hbreak]
      exact Nat.succ_ne_zero _
    rw [hlength, List.cons_append, plain]
    by_cases hblank : isBlank c = true
    · -- the last character is no blank, so a word follows and the blanks that have been met stay
      have hcs : cs ≠ [] := by
        rintro rfl
        rw [hlast c rfl] at hblank
        cases hblank
      rw [if_pos hblank, if_neg (by simp [Gap.hasBreak]), Gap.addBlank,
        plain_append hline' (absurd · hcs) hlast' (by simpa [hblank] using hinner) (absurd · hcolumn),
        List.reverse_cons, List.append_assoc, List.singleton_append]
    · have hends : ¬(c = ':' ∧ endsWord (cs ++ r) = true) := by
        rintro ⟨rfl, hends⟩
        cases cs with
        | nil => cases hcolon
        | cons d cs =>
          rw [endsWord_append (List.cons_ne_nil d cs)] at hends
          simp [hends] at hcolon
      have hstart : ¬(p.column = 0 ∧ isMarker (c :: (cs ++ r)) = true) := by
        rintro ⟨hp, hm⟩
        have hno := hmarker hp
        rw [List.cons_append, hm] at hno
        cases hno
      -- a sharp starts a comment behind a blank only, and there the text has none
      have hcomment : ¬(c = '#' ∧ (!Gap.isEmpty (.inline blanks)) = true) := by
        rintro ⟨rfl, hgap⟩
        simp [Gap.isEmpty] at hsharp hgap
        exact hgap hsharp
      have hgap : Gap.empty = .inline [] := rfl
      rw [if_neg hblank, if_neg (by simp [hbreak]), if_neg (by simp [Gap.hasBreak]), if_neg hstart, if_neg hcomment,
        if_neg (by simp), if_neg (by simpa using hends), hgap,
        plain_append hline' (fun _ => rfl) hlast' (by simpa [hblank, hbreak] using hinner) (absurd · hcolumn),
        Option.map_map]
      refine congrArg (Option.map · _) (funext fun s => ?_)
      simp [ScannedPlain.prepend_prepend, Gap.text]

/-- In front of a colon with a blank, a break or the end behind it. -/
theorem plain_colon (hr : endsWord r = true) :
    plain false indent .empty p (':' :: r) = some ⟨⟨[], p, ':' :: r⟩, false⟩ := by
  have hmarker : isMarker (':' :: r) = false := by simp [isMarker, startsDocument, endsDocument, List.isPrefixOf]
  rw [plain, if_neg (by decide), if_neg (by decide), if_neg (by simp [Gap.empty, Gap.hasBreak]),
    if_neg (by simp [hmarker]), if_neg (by decide), if_neg (by simp), if_pos (.inl ⟨rfl, hr⟩)]
  rfl

/-- Spaces at the start of a line. -/
theorem plain_spaces {b : Char} {more : List Char} : ∀ {n : Nat} {p : Position},
    plain false indent (.folded (some b) more) p (spaces n ++ r) =
      plain false indent (.folded (some b) more) (p.right n) r
  | 0, _ => rfl
  | n + 1, p => by
    have hafter : p.after ' ' = p.right 1 := rfl
    rw [spaces_succ, List.cons_append, plain, if_pos (by decide), if_neg (by simp), Gap.addBlank, hafter, plain_spaces,
      Position.right_right, Nat.add_comm]

/-- In front of a line that is indented by less, reading stops at the first word of that line. -/
theorem plain_newline (ht : StartsEntry t) (hindent : indentOf t < indent) :
    plain false indent .empty p ('\n' :: t) = some ⟨⟨[], ⟨p.line + 1, indentOf t⟩, wordOf t⟩, true⟩ := by
  have hline : plain false indent .empty p ('\n' :: t) =
      plain false indent (.folded (some '\n') []) ⟨p.line + 1, 0⟩ (spaces (indentOf t) ++ wordOf t) := by
    rw [spaces_append_wordOf, plain, if_neg (by decide), if_pos (by decide)]
    rfl
  have hposition : Position.right ⟨p.line + 1, 0⟩ (indentOf t) = ⟨p.line + 1, indentOf t⟩ := by
    rw [Position.right, Nat.zero_add]
  rw [hline, plain_spaces, hposition]
  -- a break has been met, so a first word further to the left ends the scalar
  cases hword : wordOf t with
  | nil => rfl
  | cons c r =>
    have htoken := ht.startsToken
    rw [hword] at htoken
    obtain ⟨hblank, hbreak, -⟩ := htoken c rfl
    rw [plain, if_neg (by simp [hblank]), if_neg (by simp [hbreak]), if_pos (by simp [Gap.hasBreak, hindent])]
    rfl

end CompactSearch.Yaml
