import TraceAtlas.Proofs.Index.Contents
import TraceAtlas.Proofs.Session.Conformance
import TraceAtlas.Session.Index

/-! # An index answers like a finite map

Sessions on an index, with steps on its gate and readers held in between, said in terms of a plain
map from addresses to words. The settings, the slots and the readers do not occur in what a map may
answer, so none of them shows in what an index answers, apart from whether an addition is refused.

## Main definitions
* `IndexCall.law` : what a finite map answers.

## Main statements
* `GatedIndex.conforms_law` : an index answers like one.
-/

namespace TraceAtlas

namespace IndexCall

/-- What a finite map may reply to a call, and the map it is afterwards. A map may refuse an
addition, but then it stays as it was. -/
def Replies (m : Contents UInt64) : IndexCall → IndexReply → Contents UInt64 → Prop
  | .insert key value, .inserted (.ok ()), m' =>
    m key = none ∧ m' = Function.update m key (some value)
  | .insert key _, .inserted (.error _), m' => m key = none ∧ m' = m
  | .remove key, .removed value, m' => m key = some value ∧ m' = Function.update m key none
  | .floor query, .entry found, m' => m.IsFloor query found ∧ m' = m
  | .removeRange start length, .entries removed, m' =>
    m.EnumeratesDown start length removed ∧ m' = m.eraseRange start length
  | .collect, .collected, m' => m' = m
  | .size, .size count, m' => count = m.count ∧ m' = m
  | .entries, .entries list, m' => m.Enumerates list ∧ m' = m
  | _, _, _ => False

/-- When a call breaks its contract: it adds an address that is there or removes one that is not. -/
def Breaks (m : Contents UInt64) : IndexCall → Fault → Prop
  | .insert key _, e => m key ≠ none ∧ e = .duplicateKey key
  | .remove key, e => m key = none ∧ e = .absentKey key
  | _, _ => False

/-- A finite map, as something to be called: it stops only at a call that breaks its contract. -/
def law : CallLaw IndexCall IndexReply (Contents UInt64) where
  reply := Replies
  fault := Breaks

end IndexCall

namespace GatedIndex

/-- What an index replies is what a finite map replies, and the index holds that map afterwards. -/
theorem replies_of_outcome_answer {s s' : GatedIndex} {k : IndexCall} {r : IndexReply}
    (h : (answer k s).outcome = .ok (r, s')) :
    s'.gate = s.gate ∧ IndexCall.Replies s.index.contents k r s'.index.contents := by
  cases k with
  | insert key value =>
    -- a key that is present is a fault, so the call that ended found none
    by_cases hkey : s.index.contents key = none
    · obtain ⟨result, ix, hix, hresult⟩ := Index.outcome_insert_of_absent hkey value
      rw [answer, Traced.outcome_bind_of_ok hix] at h
      obtain ⟨rfl, rfl⟩ := Prod.ext_iff.1 (Except.ok.inj h)
      refine ⟨rfl, ?_⟩
      cases result with
      | ok _ => exact ⟨hkey, hresult⟩
      | error _ =>
        obtain ⟨refused, rfl⟩ := hresult
        exact ⟨hkey, Index.contents_refuse _ refused⟩
    · rw [answer, Traced.outcome_bind_of_error (Index.outcome_insert_of_present hkey)] at h
      cases h
  | remove key =>
    have hremove := Index.outcome_remove s.index key
    split at hremove
    · rw [answer, Traced.outcome_bind_of_error hremove] at h
      cases h
    · rename_i value hkey
      obtain ⟨ix, hix, hrest⟩ := hremove
      rw [answer, Traced.outcome_bind_of_ok hix] at h
      obtain ⟨rfl, rfl⟩ := Prod.ext_iff.1 (Except.ok.inj h)
      exact ⟨rfl, hkey, hrest⟩
  | floor query =>
    obtain ⟨rfl, rfl⟩ := Prod.ext_iff.1 (Except.ok.inj h)
    exact ⟨rfl, s.index.floor?_spec query, rfl⟩
  | removeRange start length =>
    obtain ⟨rfl, rfl⟩ := Prod.ext_iff.1 (Except.ok.inj h)
    exact ⟨rfl, s.index.removeRange_spec start length⟩
  | collect =>
    obtain ⟨ix, hix, hsame⟩ := Index.outcome_collect s.index s.gate
    rw [answer, Traced.outcome_bind_of_ok hix] at h
    obtain ⟨rfl, rfl⟩ := Prod.ext_iff.1 (Except.ok.inj h)
    exact ⟨rfl, hsame⟩
  | size =>
    obtain ⟨rfl, rfl⟩ := Prod.ext_iff.1 (Except.ok.inj h)
    exact ⟨rfl, s.index.size_eq_count, rfl⟩
  | entries =>
    obtain ⟨rfl, rfl⟩ := Prod.ext_iff.1 (Except.ok.inj h)
    exact ⟨rfl, s.index.toList_spec, rfl⟩

/-- An index stops only at a call that breaks the contract of a finite map. -/
theorem breaks_of_outcome_answer {s : GatedIndex} {k : IndexCall} {e : Fault}
    (h : (answer k s).outcome = .error e) : IndexCall.Breaks s.index.contents k e := by
  cases k with
  | insert key value =>
    by_cases hkey : s.index.contents key = none
    · obtain ⟨result, ix, hix, -⟩ := Index.outcome_insert_of_absent hkey value
      rw [answer, Traced.outcome_bind_of_ok hix] at h
      cases h
    · rw [answer, Traced.outcome_bind_of_error (Index.outcome_insert_of_present hkey)] at h
      exact ⟨hkey, (Except.error.inj h).symm⟩
  | remove key =>
    have hremove := Index.outcome_remove s.index key
    split at hremove
    · rename_i hkey
      rw [answer, Traced.outcome_bind_of_error hremove] at h
      exact ⟨hkey, (Except.error.inj h).symm⟩
    · obtain ⟨ix, hix, -⟩ := hremove
      rw [answer, Traced.outcome_bind_of_ok hix] at h
      cases h
  | collect =>
    obtain ⟨ix, hix, -⟩ := Index.outcome_collect s.index s.gate
    rw [answer, Traced.outcome_bind_of_ok hix] at h
    cases h
  | floor query => cases h
  | removeRange start length => cases h
  | size => cases h
  | entries => cases h

/-- Every call on an index keeps to the law of a finite map. -/
theorem abstracts_answer :
    IndexCall.law.Abstracts answer fun s m => s.index.contents = m where
  gate_withGate _ _ := rfl
  withGate _ h := h
  reply h hk := by
    subst h
    obtain ⟨hgate, hreplies⟩ := replies_of_outcome_answer hk
    exact ⟨iff_of_eq (congrArg Gate.Invalid hgate), _, hreplies, rfl⟩
  fault h hk := h ▸ breaks_of_outcome_answer hk

/-- **An index answers like a finite map**: whatever its settings, every session on a fresh index
goes as it may go with a map that starts empty, and at every point of it the index says that it is
empty exactly if the map is. -/
theorem conforms_law (t : Tuning) (steps : List (Step IndexCall)) :
    IndexCall.law.Conforms Contents.empty false steps (run t steps) ∧
      ∀ s : GatedIndex, s.index.isEmpty = true ↔ s.index.contents = Contents.empty :=
  ⟨abstracts_answer.conforms_run steps (s := .start (empty t)) (Index.contents_empty t slotBytes),
    fun s => s.index.isEmpty_iff⟩

end GatedIndex

end TraceAtlas
