import FilterQuery.Text.Case

/-!
# Tables of case maps

Beyond ASCII, a case map is given by two **tables**: runs of letters that go to one letter each, and
letters that go to several. The tables are too long to be decided entry by entry wherever something
is claimed of a case map, so what is needed of them is said once here.

* A character is moved by a run, by a sequence or not at all (`mapped_cases`).
* Both tables **lead to letters** only (`LeadsToLetters`): no image is below `A`, and all are valid
  characters. This is what a table is checked for, in one pass over its entries.
* So a character below `A`, such as a mark, a digit or a blank, comes from itself alone
  (`LeadsToLetters.eq_of_mem`). Later proofs about the marks of a query use nothing but this.
-/

namespace FilterQuery.Text

/-- What holds of the first 128 characters holds of all ASCII characters. -/
theorem forall_ascii {P : Char → Prop} (h : ∀ n < 0x80, P (Char.ofNat n)) {c : Char}
    (hc : c.toNat < 0x80) : P c := by
  rw [← Char.ofNat_toNat c]
  exact h _ hc

theorem toNat_ofNat_of_valid {n : Nat} (h : n.isValidChar) : (Char.ofNat n).toNat = n := by
  rw [Char.ofNat, dif_pos h]
  rfl

/-- The characters that two tables make of one. -/
def mapped (runs : List CaseRun) (sequences : List (Nat × List Nat)) (c : Char) : List Char :=
  match CaseRun.target? runs c.toNat, sequences.lookup c.toNat with
  | some n, _ => [Char.ofNat n]
  | none, some ns => ns.map Char.ofNat
  | none, none => [c]

theorem upperChar_of_ascii {c : Char} (hc : c.toNat < 0x80) : upperChar c = [c.toUpper] :=
  if_pos hc

theorem upperChar_of_not_ascii {c : Char} (hc : 0x80 ≤ c.toNat) :
    upperChar c = mapped upperRuns upperSequences c :=
  if_neg (Nat.not_lt.mpr hc)

theorem lowerChar_of_ascii {c : Char} (hc : c.toNat < 0x80) : lowerChar c = [c.toLower] :=
  if_pos hc

theorem lowerChar_of_not_ascii {c : Char} (hc : 0x80 ≤ c.toNat) :
    lowerChar c = mapped lowerRuns lowerSequences c :=
  if_neg (Nat.not_lt.mpr hc)

variable {runs : List CaseRun} {sequences : List (Nat × List Nat)} {c d : Char}

/-- A character is moved by a run, by a sequence or not at all. -/
theorem mapped_cases :
    (∃ run ∈ runs, run.first ≤ c.toNat ∧ c.toNat ≤ run.last ∧
        mapped runs sequences c = [Char.ofNat ((c.toNat : Int) + run.offset).toNat]) ∨
      (∃ ns, (c.toNat, ns) ∈ sequences ∧ mapped runs sequences c = ns.map Char.ofNat) ∨
      mapped runs sequences c = [c] := by
  unfold mapped
  split
  · next hn =>
    obtain ⟨run, hrun, rfl⟩ := Option.map_eq_some_iff.mp hn
    have hcovers := List.find?_some hrun
    simp only [CaseRun.covers, Bool.and_eq_true, decide_eq_true_eq] at hcovers
    exact .inl ⟨run, List.mem_of_find?_eq_some hrun, hcovers.1.1, hcovers.1.2, rfl⟩
  · next hns =>
    obtain ⟨before, after, heq, -⟩ := List.lookup_eq_some_iff.mp hns
    exact .inr (.inl ⟨_, heq ▸ List.mem_append_right _ List.mem_cons_self, rfl⟩)
  · exact .inr (.inr rfl)

/-- Two tables lead to `A` and later letters, and around the code points that stand for no
character. -/
structure LeadsToLetters (runs : List CaseRun) (sequences : List (Nat × List Nat)) : Prop where
  run_bounds : ∀ run ∈ runs, (0x41 : Int) ≤ run.first + run.offset ∧
    (run.last + run.offset < 0xD800 ∨
      (0xE000 ≤ run.first + run.offset ∧ run.last + run.offset < 0x110000))
  sequence_bounds : ∀ entry ∈ sequences, ∀ n ∈ entry.2, 0x41 ≤ n ∧ n < 0xD800

namespace LeadsToLetters

theorem upper : LeadsToLetters upperRuns upperSequences :=
  ⟨by decide +kernel, by decide +kernel⟩

theorem lower : LeadsToLetters lowerRuns lowerSequences :=
  ⟨by decide +kernel, by decide +kernel⟩

variable (h : LeadsToLetters runs sequences)
include h

/-- The code point that a run leads to stands for a character. -/
theorem toNat_target {run : CaseRun} {n : Nat} (hrun : run ∈ runs) (hfirst : run.first ≤ n)
    (hlast : n ≤ run.last) :
    (Char.ofNat ((n : Int) + run.offset).toNat).toNat = ((n : Int) + run.offset).toNat := by
  obtain ⟨hlow, hvalid⟩ := h.run_bounds run hrun
  refine toNat_ofNat_of_valid ?_
  unfold Nat.isValidChar
  omega

theorem toNat_sequence {n m : Nat} {ns : List Nat} (hns : (m, ns) ∈ sequences) (hn : n ∈ ns) :
    (Char.ofNat n).toNat = n :=
  toNat_ofNat_of_valid (.inl (h.sequence_bounds _ hns n hn).2)

/-- A character below the letters comes from itself alone. -/
theorem eq_of_mem (hd : d.toNat < 0x41) (hmem : d ∈ mapped runs sequences c) : c = d := by
  rcases @mapped_cases runs sequences c with ⟨run, hrun, hfirst, hlast, heq⟩ | ⟨ns, hns, heq⟩ | heq
  · -- runs and sequences lead to `A` and later characters
    have hlow := (h.run_bounds run hrun).1
    have htarget := h.toNat_target hrun hfirst hlast
    rw [heq, List.mem_singleton] at hmem
    subst hmem
    omega
  · rw [heq] at hmem
    obtain ⟨n, hn, rfl⟩ := List.mem_map.mp hmem
    have hlow := (h.sequence_bounds _ hns n hn).1
    have htarget := h.toNat_sequence hns hn
    omega
  · rw [heq, List.mem_singleton] at hmem
    exact hmem.symm

end LeadsToLetters

end FilterQuery.Text
