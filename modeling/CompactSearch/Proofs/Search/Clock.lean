/-
What a search takes from the clock. Both compilers ask for the present instant in one place only, where the value of a
field that holds dates is resolved. So a query is compiled alike at instants at which these values mean the same
(`Document.compile_congr_clock`, `Sql.compile_congr_clock`), and a value that is no relative date means nothing at any
instant: without relative dates on date fields the clock does not matter (`compile_timeless`).
-/
import CompactSearch.Document.Compile
import CompactSearch.Proofs.Formula
import CompactSearch.Proofs.Time.Relative
import CompactSearch.Sql.Compile

namespace CompactSearch

variable {policy : FieldPolicy} {now now' : Instant} {q : Query}

/-- The texts that a query compares date fields with mean the same at both instants. -/
def SameDates (policy : FieldPolicy) (now now' : Instant) (q : Query) : Prop :=
  ∀ field op text negated, .keyed field op (.string text) negated ∈ q.atoms → policy.isDateField field = true →
    RelativeDate.resolve? text now = RelativeDate.resolve? text now'

namespace Document

theorem keyedCondition_congr_clock {field : String} {v : Value} (op : Operator)
    (h : ∀ text, v = .string text → policy.isDateField field = true →
      RelativeDate.resolve? text now = RelativeDate.resolve? text now') :
    keyedCondition policy now field op v = keyedCondition policy now' field op v := by
  cases hd : policy.isDateField field with
  | false => simp [keyedCondition, hd]
  | true =>
    have ht : dateText now v = dateText now' v := by
      cases v with
      | string text => rw [dateText, dateText, h text rfl hd]
      | number | null => rfl
    rw [keyedCondition, keyedCondition, ht]

/-- A query has one document filter at instants at which its dates mean the same. -/
theorem compile_congr_clock (h : SameDates policy now now' q) : compile policy now q = compile policy now' q := by
  refine Formula.expand_congr fun l hl => ?_
  cases l with
  | bare v negated => rfl
  | keyed field op v negated =>
    have hc : keyedCondition policy now field op v = keyedCondition policy now' field op v := by
      refine keyedCondition_congr_clock op ?_
      rintro text rfl
      exact h field op text negated hl
    rw [leafFilter, leafFilter, hc]

end Document

namespace Sql

/-- A query has one condition at instants at which its dates mean the same. -/
theorem compile_congr_clock (o : DateOverride) (batch : String) (h : SameDates policy now now' q) :
    compile ⟨policy, o, now⟩ batch q = compile ⟨policy, o, now'⟩ batch q := by
  have hf : Settings.filter ⟨policy, o, now⟩ q = Settings.filter ⟨policy, o, now'⟩ q := by
    refine Formula.expand_congr fun l hl => ?_
    cases l with
    | bare v negated => rfl
    | keyed field op v negated =>
      have hd : Settings.relativeDate? ⟨policy, o, now⟩ field v = Settings.relativeDate? ⟨policy, o, now'⟩ field v := by
        cases v with
        | string text =>
          unfold Settings.relativeDate?
          dsimp only
          split
          · exact h field op text negated hl ‹_›
          · rfl
        | number | null => rfl
      simp only [Settings.leafFilter, Settings.keyedClause, hd]
  rw [compile, compile, hf]

end Sql

namespace RelativeDate

/-- The text is `now`, or a sign or none, digits and the name of a unit. -/
def IsRelative (text : String) : Prop := text = "now" ∨ ∃ amount unit, IsOffset text amount unit

/-- Any other text means no instant. -/
theorem resolve?_of_not_isRelative {text : String} (h : ¬ IsRelative text) (now : Instant) :
    resolve? text now = none := by
  rw [resolve?, Option.bind_eq_none_iff]
  intro r hr
  exact absurd (isOffset_of_ofText? hr) h

end RelativeDate

/-- The leaf compares a field that holds dates with a relative date. -/
def Leaf.NamesTime (policy : FieldPolicy) : Leaf → Prop
  | .keyed field _ (.string text) _ => policy.isDateField field = true ∧ RelativeDate.IsRelative text
  | _ => False

/-- A query that compares no date field with a relative date is compiled alike at all instants, for both stores and
under every policy, rule for dates and batch of placeholders. Whatever its bare values and the values of its other
fields look like makes no difference. -/
theorem compile_timeless (policy : FieldPolicy) (o : Sql.DateOverride) (batch : String) (q : Query)
    (h : ∀ l ∈ q.atoms, ¬ l.NamesTime policy) (now now' : Instant) :
    Document.compile policy now q = Document.compile policy now' q ∧
      Sql.compile ⟨policy, o, now⟩ batch q = Sql.compile ⟨policy, o, now'⟩ batch q := by
  have hdates : SameDates policy now now' q := by
    intro field op text negated hl hd
    have htext : ¬ RelativeDate.IsRelative text := fun ht => h _ hl ⟨hd, ht⟩
    rw [RelativeDate.resolve?_of_not_isRelative htext, RelativeDate.resolve?_of_not_isRelative htext]
  exact ⟨Document.compile_congr_clock hdates, Sql.compile_congr_clock o batch hdates⟩

/-- Relative dates on a bare leaf and on a field that holds no dates, and on one that does a number and a text that only
starts like a relative date. -/
theorem compile_timeless_lookalikes :
    let policy : FieldPolicy := { any := some ["note"], isDate := some ["due"] }
    let q : Query := .all [.atom (.bare (.string "now") false), .atom (.keyed "age" .gt (.string "-7d") false),
      .any [.atom (.keyed "due" .lt (.number ⟨"7", by decide⟩) false), .atom (.keyed "due" .eq (.string "now7") true)]]
    (∀ l ∈ q.atoms, ¬ l.NamesTime policy) ∧
      Document.compile policy ⟨0, 0⟩ q = Document.compile policy ⟨1715329800, 500⟩ q ∧
      Sql.compile ⟨policy, .always, ⟨0, 0⟩⟩ "b" q = Sql.compile ⟨policy, .always, ⟨1715329800, 500⟩⟩ "b" q := by
  intro policy q
  have hx : ¬ RelativeDate.IsRelative "now7" := by
    rintro (h | ⟨amount, unit, h⟩)
    · exact absurd h (by decide)
    · cases h with
      | unsigned h =>
        obtain ⟨c, r, he, hc⟩ := h.head_isDigit
        cases he
        cases hc
      | plus ht h | minus ht h => cases ht
  have h : ∀ l ∈ q.atoms, ¬ l.NamesTime policy := by
    have hq : q.atoms = [.bare (.string "now") false, .keyed "age" .gt (.string "-7d") false,
      .keyed "due" .lt (.number ⟨"7", by decide⟩) false, .keyed "due" .eq (.string "now7") true] := rfl
    rw [hq, List.forall_mem_cons, List.forall_mem_cons, List.forall_mem_cons, List.forall_mem_singleton]
    exact ⟨fun hn => hn, fun hn => absurd hn.1 (by decide), fun hn => hn, fun hn => hx hn.2⟩
  exact ⟨h, compile_timeless policy .always "b" q h ⟨0, 0⟩ ⟨1715329800, 500⟩⟩

end CompactSearch
