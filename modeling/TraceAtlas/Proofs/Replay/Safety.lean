import Mathlib
import TraceAtlas.CommandLine.Execution
import TraceAtlas.Proofs.Replay.Agreement

/-! # Scripts that are replayed without a fault

A script that was read and checked is replayed on a fresh registry, whatever its settings. The check
takes the end of a position that lies behind the address space for the highest address, so a script
may name such a position; replaying it is then a fault, and this is the only one that a script can
lead to.

## Main definitions
* `Replay.OverflowsIn` : one of some operations overflows when its turn comes.

## Main statements
* `Replay.Sound.applyAll` : what may come of operations in a row.
* `Replay.Overflows.stop_eq_last` : only code that ends at the highest address can overflow.
* `Script.replays_unless_overflow` : what may come of a script.
-/

namespace TraceAtlas

/-! ## (1) Settings -/

namespace Tuning

/-- A first chunk of up to half the address space is rounded to a power of two. -/
theorem exists_chunkOrder {size : UInt64} (h : size.toNat ≤ 2 ^ 63) :
    ∃ order, chunkOrder? size = some order := by
  have horder : (if size.toNat ≤ 1 then 0 else (size.toNat - 1).log2 + 1) < 64 := by
    split
    · omega
    · have : (size.toNat - 1).log2 < 63 := (Nat.log2_lt (by omega)).2 (by omega)
      omega
  exact ⟨_, dif_pos horder⟩

/-- Settings that ask for a first chunk of at most half the address space can be applied. -/
theorem exists_override (t : Tuning) {o : Overrides}
    (h : ∀ size, o.chunkSize = some size → size.toNat ≤ 2 ^ 63) :
    ∃ t', t.override o = .ok t' := by
  unfold override
  cases hsize : o.chunkSize with
  | none => exact ⟨_, rfl⟩
  | some size =>
    obtain ⟨order, horder⟩ := exists_chunkOrder (h size hsize)
    simp only [horder]
    exact ⟨_, rfl⟩

end Tuning

/-! ## (2) Operations in a row -/

namespace Replay

/-- One of some operations overflows when its turn comes: those before it are all applied. -/
def OverflowsIn (r : Replay) : List Op → Prop
  | [] => False
  | op :: ops =>
    r.Overflows op ∨ ∃ r', (r.apply op).outcome = .ok (.ok (), r') ∧ r'.OverflowsIn ops

/-- **What may come of operations in a row** that were validated: the fault of an address behind the
end of the space, exactly if one of them overflows, and else a state in which every address can be
sampled, whether all of them were applied or one was not. -/
theorem Sound.applyAll {r : Replay} (h : r.Sound) {ops : List Op} (position : Nat)
    (hops : ∀ op ∈ ops, op.validate = .ok ()) :
    r.OverflowsIn ops ∧ (r.applyAll position ops).outcome = .error .addressOverflow ∨
      ¬r.OverflowsIn ops ∧ ∃ result r', (r.applyAll position ops).outcome = .ok (result, r') ∧
        r'.Readable := by
  induction ops generalizing r position with
  | nil => exact .inr ⟨id, .ok (), r, rfl, h.toReadable⟩
  | cons op ops ih =>
    obtain ⟨hop, hops⟩ := List.forall_mem_cons.1 hops
    rw [Replay.applyAll, OverflowsIn]
    rcases h.apply hop with ⟨hover, hout⟩ | ⟨hover, result, r₁, hout, hreadable, happlied⟩
    · exact .inl ⟨.inl hover, Traced.outcome_bind_of_error hout _⟩
    · rw [Traced.outcome_bind_of_ok hout]
      cases result with
      | error e =>
        refine .inr ⟨?_, .error (position, e), r₁, rfl, hreadable⟩
        rintro (hover' | ⟨r', hok, -⟩)
        · exact hover hover'
        · rw [hout] at hok
          cases hok
      | ok _ =>
        -- the first operation is applied, so it is the others that may overflow
        have hnext : r.Overflows op ∨
            (∃ r', (r.apply op).outcome = .ok (.ok (), r') ∧ r'.OverflowsIn ops) ↔
              r₁.OverflowsIn ops := by
          simp [hover, hout]
        rw [hnext]
        exact ih ((happlied rfl).sound h hop hreadable) (position + 1) hops

/-- Only code that ends at the highest address can overflow: the check finds every other position
that lies behind the end. -/
theorem Overflows.stop_eq_last {r : Replay} {start stop : Address} {positions : List Offset}
    {depths : List UInt32} (h : r.Overflows (.frameDepths start stop positions depths))
    (hop : (Op.frameDepths start stop positions depths).validate = .ok ()) :
    stop = Address.last := by
  obtain ⟨⟨p, hp, hbehind⟩, -⟩ := h
  have hstop := advance_le_stop hop ((claimed_sublist _ positions).subset hp)
  rw [UInt64.le_iff_toNat_le, Address.toNat_advance, UInt32.toNat_toUInt64] at hstop
  have hlt := stop.toNat_lt
  have hsize : UInt64.size = 2 ^ 64 := rfl
  rw [← UInt64.toNat_inj, Address.toNat_last]
  omega

end Replay

/-! ## (3) Scripts -/

namespace Script

/-- Operations that were validated in a row are each validated. -/
theorem validate_of_validateFrom {position : Nat} {ops : List Op}
    (h : validateFrom position ops = .ok ()) : ∀ op ∈ ops, op.validate = .ok () := by
  induction ops generalizing position with
  | nil => simp
  | cons op ops ih =>
    rw [validateFrom] at h
    split at h
    · cases h
    · rename_i hop
      exact List.forall_mem_cons.2 ⟨hop, ih h⟩

/-- A script that was read was checked. -/
theorem validate_of_parse {source : String} {s : Script} (h : parse source = .ok s) :
    ∀ op ∈ s.ops, op.validate = .ok () := by
  unfold parse at h
  split at h
  · cases h
  · rename_i script _
    cases hcheck : script.validate with
    | error e =>
      rw [hcheck] at h
      cases h
    | ok _ =>
      rw [hcheck] at h
      obtain rfl : script = s := Except.ok.inj h
      exact validate_of_validateFrom hcheck

/-- **What may come of a script** that was read, with settings of its own and others that win over
them, whose first chunks are not past any power of two, in any surroundings. Its settings can be put
in place, and replaying it is a fault exactly if one of its operations runs past the end of the
address space when its turn comes. Otherwise the replay ends, be it at an error, in a state in which
every address can be sampled. -/
theorem replays_unless_overflow {source : String} {s : Script} (request : ReplayRequest)
    (given : Surroundings) (hparse : parse source = .ok s)
    (hscript : ∀ size, s.settings.chunkSize = some size → size.toNat ≤ 2 ^ 63)
    (hrequest : ∀ size, request.settings.chunkSize = some size → size.toNat ≤ 2 ^ 63) :
    ∃ t, request.tuning s given = .ok t ∧
      (∀ e, ((Replay.start t).applyAll 0 s.ops).outcome = .error e ↔
        e = .addressOverflow ∧ (Replay.start t).OverflowsIn s.ops) ∧
      ∀ result r, ((Replay.start t).applyAll 0 s.ops).outcome = .ok (result, r) →
        ∀ pc, ∃ sample, r.sample pc = .ok sample := by
  obtain ⟨t₁, ht₁⟩ := (Tuning.standard given).exists_override hscript
  obtain ⟨t, ht⟩ := t₁.exists_override hrequest
  refine ⟨t, ?_, ?_⟩
  · rw [ReplayRequest.tuning, ht₁]
    exact ht
  -- whether it overflows is decided by the operations, and the settings have no part in it
  rcases (Replay.sound_start t).applyAll 0 (validate_of_parse hparse) with
    ⟨hover, hout⟩ | ⟨hover, result, r, hout, hreadable⟩
  · refine ⟨fun e => ?_, fun result r h => ?_⟩
    · rw [hout, Except.error.injEq]
      exact ⟨fun h => ⟨h.symm, hover⟩, fun h => h.1.symm⟩
    · rw [hout] at h
      cases h
  · refine ⟨fun e => ?_, fun result' r' h => ?_⟩
    · rw [hout]
      exact ⟨fun h => (by cases h), fun h => absurd h.2 hover⟩
    · obtain ⟨-, rfl⟩ := Prod.mk.inj (Except.ok.inj (hout.symm.trans h))
      exact hreadable.exists_sample

/-- A script may name a position behind the end of the address space, and replaying it is a fault.
-/
theorem overflows_at_the_end : ∃ s t,
    parse ("[[op]]\nkind = \x22frame-depths\x22\nstart = 18446744073709551614\n" ++
      "stop = 18446744073709551615\npositions = [5, 10]\ndepths = [1, 2]\n") = .ok s ∧
    ReplayRequest.tuning ⟨"script.toml", [], false, {}⟩ s = .ok t ∧
    ((Replay.start t).applyAll 0 s.ops).outcome = .error .addressOverflow := by
  have hparse : parse ("[[op]]\nkind = \x22frame-depths\x22\nstart = 18446744073709551614\n" ++
      "stop = 18446744073709551615\npositions = [5, 10]\ndepths = [1, 2]\n") = .ok ⟨[], {},
        [.frameDepths 18446744073709551614 18446744073709551615 [5, 10] [1, 2]]⟩ := by cbv
  obtain ⟨t, ht, hfault, -⟩ := replays_unless_overflow ⟨"script.toml", [], false, {}⟩ {} hparse
    (by simp) (by simp)
  refine ⟨_, t, hparse, ht, (hfault _).2 ⟨rfl, .inl ⟨⟨5, ?_, ?_⟩, ?_⟩⟩⟩
  · decide
  · decide
  · simp [Replay.start]

end Script

end TraceAtlas
