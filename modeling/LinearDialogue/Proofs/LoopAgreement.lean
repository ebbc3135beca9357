import LinearDialogue.Proofs.Loops
import LinearDialogue.Proofs.Recitals

/-!
# Loops found and loops played

The search for loops looks at the records alone; playback moves a cursor over a table of them.  They
agree: where no loop is found, playback comes to its end from every entry, and a loop that is found
is played round and round from each of its ids.
-/

namespace LinearDialogue

open Recital

/-- A spoken line of the class that playback executes. -/
structure Record.IsDialogue (record : Record) : Prop where
  recordClass : record.recordClass = .dialogue
  line : record.line.isSome

theorem Record.IsDialogue.isSome_playableLine? {record : Record} (h : record.IsDialogue) :
    record.playableLine?.isSome := by
  simpa [playableLine?, h.recordClass, RecordClass.dialogue] using h.line

namespace Recital

/-- A chain that ends is played to its end in as many steps as it has ids. -/
theorem exists_advance_eq_false {s : Recital} (hs : s.IsQuiet) (hplayable : s.Playable) {n : ℕ}
    (hend : s.links.after (n + 1) s.playback.cursor = none) :
    ∃ k ≤ n, (s.after k).playback.current? = none ∧
      (operate .advance (s.after k)).1 = .returned (.bool false) := by
  induction n with
  | zero =>
      have hcurrent := current?_eq_none_iff.mpr (by simpa using hend)
      rcases advance_cases hs hplayable with ⟨_, _, hsome, _⟩ | ⟨_, hanswer, _⟩
      · simp [hcurrent] at hsome
      · exact ⟨0, le_rfl, hcurrent, hanswer⟩
  | succ n ih =>
      cases hlast : s.links.after (n + 1) s.playback.cursor with
      | none =>
          obtain ⟨k, hk, hstopped⟩ := ih hlast
          exact ⟨k, Nat.le_succ_of_le hk, hstopped⟩
      | some id =>
          have hn := resumes_after hs hplayable (n + 1)
          rw [SuccessorTable.after_add, hlast, Option.bind_some, SuccessorTable.after_one,
            ← hn.links, ← cursor_after hs hplayable hlast, ← current?_eq_none_iff] at hend
          rcases advance_cases hn.quiet (hn.playable hplayable) with
            ⟨_, _, hsome, _⟩ | ⟨_, hanswer, _⟩
          · simp [hend] at hsome
          · exact ⟨n + 1, le_rfl, hend, hanswer⟩

/-- A step with the cursor on an id that has a successor executes the record of that id. -/
theorem advance_eq_true {s : Recital} (hs : s.IsQuiet) (hplayable : s.Playable) {next : Int}
    (hnext : s.links.next? s.playback.cursor = some next) :
    (operate .advance s).1 = .returned (.bool true) ∧
      ∃ record line, s.playback.current? = some record ∧ record.id = s.playback.cursor ∧
        record.playableLine? = some line ∧
        (s.after 1).calls = s.calls ++ s.lineCalled record.id line := by
  rcases advance_cases hs hplayable with
    ⟨record, line, hcurrent, hid, hline, hanswer, hbecame⟩ | ⟨hcurrent, _⟩
  · exact ⟨hanswer, record, line, hcurrent, hid, hline, hbecame.calls⟩
  · simp [next?_links, hcurrent] at hnext

end Recital

/-- The search for loops tells how playback goes.  If it finds none, then from every entry one of
the first steps is refused, no later than the one after as many as there are different ids.  If it
finds a loop, then from each id of the loop every step executes a record, and the ids of the
executed records go round the loop. -/
theorem findCycle_decides_playback (records : List Record)
    (hrecords : ∀ record ∈ records, record.IsDialogue) :
    (findCycle records = [] → ∀ (entry : Int) (s : Recital), s.IsQuiet →
      ∃ k ≤ (records.map Record.id).toFinset.card,
        (operate .advance ((s.started ⟨entry, records⟩).after k)).1 = .returned (.bool false)) ∧
    ∀ (i : ℕ) (hi : i < (findCycle records).length) (s : Recital), s.IsQuiet → ∀ k : ℕ,
      let id := (findCycle records).get
        ⟨(i + k) % (findCycle records).length, Nat.mod_lt _ (Nat.zero_lt_of_lt hi)⟩
      let t := (s.started ⟨(findCycle records)[i], records⟩).after k
      (operate .advance t).1 = .returned (.bool true) ∧
        ∃ record line, t.playback.current? = some record ∧ record.id = id ∧
          record.playableLine? = some line ∧
          (t.after 1).calls = t.calls ++ t.lineCalled id line := by
  have hquiet : ∀ (entry : Int) (s : Recital), s.IsQuiet →
      (s.started ⟨entry, records⟩).IsQuiet := fun entry s hs ↦
    (started_became ⟨entry, records⟩ s).isQuiet hs hs.idle
  have hplayable : ∀ (entry : Int) (s : Recital), (s.started ⟨entry, records⟩).Playable :=
    fun entry s ↦ playable_started (fun record h ↦ (hrecords record h).isSome_playableLine?) s
  have hcursor : ∀ (entry : Int) (s : Recital),
      (s.started ⟨entry, records⟩).playback.cursor = entry := by
    intro entry s
    rw [(started_became ⟨entry, records⟩ s).playback]
  refine ⟨?_, ?_⟩
  · intro hnone entry s hs
    have hends := (SuccessorTable.ends_of_findCycle_eq_nil hnone entry).after_length_succ
    rw [SuccessorTable.length_ofRecords, ← links_started ⟨entry, records⟩ s] at hends
    obtain ⟨k, hk, -, hanswer⟩ :=
      exists_advance_eq_false (hquiet entry s hs) (hplayable entry s) (by rwa [hcursor])
    exact ⟨k, hk, hanswer⟩
  · intro i hi s hs k id t
    have hloop : (SuccessorTable.ofRecords records).IsLoop (findCycle records) :=
      SuccessorTable.isLoop_findCycle (List.ne_nil_of_length_pos (Nat.zero_lt_of_lt hi))
    have hstart := hquiet (findCycle records)[i] s hs
    have hknown := hplayable (findCycle records)[i] s
    have hlinks := links_started ⟨(findCycle records)[i], records⟩ s
    have hpassed := hloop.after k hi
    have ht : Resumes _ t := resumes_after hstart hknown k
    have htcursor : t.playback.cursor = id := by
      apply cursor_after hstart hknown
      rw [hcursor, hlinks]
      exact hpassed
    have hnext := hloop.leads ((i + k) % (findCycle records).length)
      (Nat.mod_lt _ (Nat.zero_lt_of_lt hi))
    obtain ⟨hanswer, record, line, hcurrent, hid, hline, hcalls⟩ :=
      advance_eq_true ht.quiet (ht.playable hknown)
        (by rw [ht.links, hlinks, htcursor]; exact hnext)
    rw [htcursor] at hid
    exact ⟨hanswer, record, line, hcurrent, hid, hline, hid ▸ hcalls⟩

/-- A chain that comes to its end, and a loop that the last record of a recurring id leads into. -/
theorem findCycle_decides_playback_of_guard_lines :
    (findCycle [guardLine 1 2, guardLine 0 1] = [] ∧
      ∃ k ≤ 2, (operate .advance
        ((started ⟨0, [guardLine 1 2, guardLine 0 1]⟩ {}).after k)).1 = .returned (.bool false)) ∧
    findCycle [guardLine 0 9, guardLine 1 2, guardLine 2 1, guardLine 0 2] = [2, 1] ∧
      (operate .advance
        ((started ⟨2, [guardLine 0 9, guardLine 1 2, guardLine 2 1, guardLine 0 2]⟩ {}).after
          1000000)).1 = .returned (.bool true) := by
  have hquiet : ({} : Recital).IsQuiet := ⟨rfl, by simp, by simp⟩
  have hends := (findCycle_decides_playback [guardLine 1 2, guardLine 0 1] (by
    simp only [List.forall_mem_cons, List.not_mem_nil, IsEmpty.forall_iff, implies_true, and_true]
    exact ⟨⟨rfl, rfl⟩, rfl, rfl⟩)).1 rfl 0 {} hquiet
  have hloops := (findCycle_decides_playback
    [guardLine 0 9, guardLine 1 2, guardLine 2 1, guardLine 0 2] (by
      simp only [List.forall_mem_cons, List.not_mem_nil, IsEmpty.forall_iff, implies_true, and_true]
      exact ⟨⟨rfl, rfl⟩, ⟨rfl, rfl⟩, ⟨rfl, rfl⟩, rfl, rfl⟩)).2 0 (by decide) {} hquiet 1000000
  exact ⟨⟨rfl, hends⟩, rfl, hloops.1⟩

end LinearDialogue
