/-
Names of placeholders and what is bound to them. Names of one batch are different when their numbers are, a name that is
not bound yet is added to the bindings, and merging bindings of different names loses nothing. Bindings stay in the
order of their names, so there is only one way to write them down (`Sorted.eq_of_perm`).
-/
import CompactSearch.Proofs.Sql.Expression
import Mathlib.Data.String.Basic

namespace CompactSearch.Sql

/-! ## Names -/

namespace Placeholders

theorem name_inj {batch : String} {i j : Nat} : name batch i = name batch j ↔ i = j := by
  refine ⟨fun h => ?_, fun h => by rw [h]⟩
  have hl := congrArg String.toList h
  simp only [name, String.toList_append, Nat.toList_repr] at hl
  have hd := congrArg (fun ds => Nat.ofDigitChars 10 ds 0) (List.append_cancel_left hl)
  simpa using hd

theorem isWord_name {batch : String} (h : IsWord batch) (n : Nat) : IsWord (name batch n) := by
  intro c hc
  simp only [name, String.toList_append, Nat.toList_repr, List.mem_append] at hc
  rcases hc with ((hc | hc) | hc) | hc
  · cases List.mem_singleton.1 hc
    rfl
  · exact h c hc
  · cases List.mem_singleton.1 hc
    rfl
  · have hd := Nat.isDigit_of_mem_toDigits (by decide) (by decide) hc
    simp [isNameChar, Char.isAlphanum, hd]

end Placeholders

theorem isNameChar_base32 : ∀ (width n : Nat), ∀ c ∈ base32 width n, isNameChar c = true
  | 0, _, _, hc => by cases hc
  | width + 1, n, c, hc => by
    rcases List.mem_append.1 hc with hc' | hc'
    · exact isNameChar_base32 width (n / 32) c hc'
    · have hall : ∀ i < 32, isNameChar (base32Digits.getD i '0') = true := by decide
      rw [List.mem_singleton.1 hc']
      exact hall _ (Nat.mod_lt n (by decide))

/-- A batch is named by letters and digits. -/
theorem isWord_batchName (millis random : Nat) : IsWord (batchName millis random) := by
  intro c hc
  rw [batchName, String.toList_ofList, List.mem_append] at hc
  exact hc.elim (isNameChar_base32 10 millis c) (isNameChar_base32 16 random c)

/-! ## Insertion and merging -/

namespace Bindings

theorem insert_perm {name : String} {v : Bound} : ∀ {b : Bindings}, name ∉ b.map (·.1) →
    (insert name v b).Perm ((name, v) :: b)
  | [], _ => .refl _
  | (n, w) :: b, h => by
    rw [List.map_cons, List.mem_cons, not_or] at h
    rw [insert]
    split
    · exact .refl _
    · rw [if_neg h.1]
      exact ((insert_perm h.2).cons _).trans (.swap _ _ _)

/-- Merging puts together bindings that have no name in common. -/
theorem merge_perm : ∀ {c b : Bindings}, (b.map (·.1) ++ c.map (·.1)).Nodup → (merge b c).Perm (b ++ c)
  | [], b, _ => by rw [merge, List.foldl_nil, List.append_nil]
  | (n, v) :: c, b, h => by
    have hp : (b.map (·.1) ++ n :: c.map (·.1)).Perm (n :: (b.map (·.1) ++ c.map (·.1))) := List.perm_middle
    have hn := (List.nodup_cons.1 (hp.nodup_iff.1 h)).1
    have hi := insert_perm (v := v) fun hm => hn (List.mem_append_left _ hm)
    have hk : ((insert n v b).map (·.1) ++ c.map (·.1)).Nodup :=
      (((hi.map (·.1)).append_right _).trans hp.symm).nodup_iff.2 h
    exact ((merge_perm hk).trans (hi.append_right c)).trans List.perm_middle.symm

/-- A name that is bound once is looked up. -/
theorem lookup_of_mem : ∀ {b : Bindings} {name : String} {v : Bound}, (b.map (·.1)).Nodup → (name, v) ∈ b →
    b.lookup name = some v
  | (n, w) :: b, name, v, hd, h => by
    rw [List.map_cons, List.nodup_cons] at hd
    rcases List.mem_cons.1 h with e | hm
    · cases e
      rw [List.lookup_cons_self]
    · have hne : (name == n) = false := by
        rw [beq_eq_false_iff_ne]
        rintro rfl
        exact hd.1 (List.mem_map.2 ⟨_, hm, rfl⟩)
      rw [List.lookup_cons, hne]
      exact lookup_of_mem hd.2 hm

/-! ## Order -/

/-- The bindings are in the order of their names, each of which is bound once. -/
def Sorted (b : Bindings) : Prop := b.Pairwise (·.1 < ·.1)

theorem mem_insert {name : String} {v : Bound} {p : String × Bound} : ∀ {b : Bindings}, p ∈ insert name v b →
    p = (name, v) ∨ p ∈ b
  | [], h => .inl (List.mem_singleton.1 h)
  | (n, w) :: b, h => by
    rw [insert] at h
    split at h
    · exact List.mem_cons.1 h
    split at h
    · exact (List.mem_cons.1 h).imp_right (List.mem_cons_of_mem _)
    · rcases List.mem_cons.1 h with rfl | h
      · exact .inr List.mem_cons_self
      · exact (mem_insert h).imp_right (List.mem_cons_of_mem _)

theorem Sorted.insert {name : String} {v : Bound} : ∀ {b : Bindings}, Sorted b → Sorted (insert name v b)
  | [], _ => List.pairwise_singleton _ _
  | (n, w) :: b, h => by
    obtain ⟨hn, hb⟩ := List.pairwise_cons.1 h
    rw [Bindings.insert]
    split
    · rename_i hlt
      refine List.pairwise_cons.2 ⟨fun p hp => ?_, h⟩
      rcases List.mem_cons.1 hp with rfl | hp
      · exact hlt
      · exact hlt.trans (hn p hp)
    split
    · rename_i heq
      subst heq
      exact List.pairwise_cons.2 ⟨hn, hb⟩
    · rename_i hlt hne
      refine List.pairwise_cons.2 ⟨fun p hp => ?_, Sorted.insert hb⟩
      rcases mem_insert hp with rfl | hp
      · exact lt_of_le_of_ne (not_lt.1 hlt) (Ne.symm hne)
      · exact hn p hp

theorem Sorted.merge : ∀ {c b : Bindings}, Sorted b → Sorted (merge b c)
  | [], _, h => h
  | _ :: c, _, h => Sorted.merge (c := c) h.insert

/-- Bindings in order are known from what they bind. -/
theorem Sorted.eq_of_perm {b c : Bindings} (hb : Sorted b) (hc : Sorted c) (h : b.Perm c) : b = c :=
  h.eq_of_pairwise (fun _ _ _ _ hab hba => absurd hab hba.asymm) hb hc

/-! ## Numbers in a row -/

/-- Values bound to names of a batch with numbers in a row. -/
def numbered (batch : String) : Nat → List Bound → Bindings
  | _, [] => []
  | n, v :: vs => (Placeholders.name batch n, v) :: numbered batch (n + 1) vs

theorem numbered_append (batch : String) : ∀ (n : Nat) (vs ws : List Bound),
    numbered batch n (vs ++ ws) = numbered batch n vs ++ numbered batch (n + vs.length) ws
  | n, [], ws => rfl
  | n, v :: vs, ws => by
    rw [List.cons_append, numbered, numbered, numbered_append batch (n + 1) vs ws, List.length_cons, List.cons_append,
      Nat.add_assoc, Nat.add_comm 1]

theorem keys_numbered (batch : String) : ∀ (n : Nat) (vs : List Bound),
    (numbered batch n vs).map (·.1) = (List.range' n vs.length).map (Placeholders.name batch)
  | _, [] => rfl
  | n, v :: vs => by
    rw [numbered, List.map_cons, keys_numbered batch (n + 1) vs, List.length_cons, List.range'_succ, List.map_cons]

theorem nodup_names (batch : String) (n k : Nat) : ((List.range' n k).map (Placeholders.name batch)).Nodup := by
  have hd : (List.range' n k).Nodup := List.nodup_range'
  exact List.pairwise_map.2 (hd.imp fun h e => h (Placeholders.name_inj.1 e))

end Bindings

end CompactSearch.Sql
