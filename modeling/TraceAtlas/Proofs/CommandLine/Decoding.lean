import TraceAtlas.CommandLine.Execution
import TraceAtlas.Proofs.Registry.Tracebacks

/-! # Decoding without a region size

Whoever decodes a chain may leave it open how large the region is. The size is then read off the
words themselves, every third of four, even those of a record that is cut off. It is the least size
that the check may accept: a larger one changes nothing about the verdict, nor about what is
printed, since a walk never asks for the size. What is printed are the frames that one search after
the other finds, behind a line for every search if these are wanted.

## Main definitions
* `Calls` : a step repeated until it misses, with the cursor that each call starts from.
* `FrameReport.callLine` : a call as a line.

## Main statements
* `Chain.check_eq_ok_iff_largestStop` : the sizes that the check accepts.
* `DecodeRequest.execute_eq_printed_iff` : when something is printed, and what.
* `DecodeRequest.region_size_optional` : the size may be left open.
-/

namespace TraceAtlas

/-! ## (1) The least region size -/

namespace Chain

variable {c : Chain} {ws : List UInt32} {size : UInt32}

/-- An offset bounds the larger of two exactly if it bounds both. -/
theorem max_le_iff_offset {a b size : Offset} : max a b ≤ size ↔ a ≤ size ∧ b ≤ size := by
  show (if a ≤ b then b else a) ≤ size ↔ _
  simp only [UInt32.le_iff_toNat_le]
  split <;> omega

/-- The largest third word of the groups of four is a bound exactly if every third word is below it.
-/
theorem largestStop_le_iff :
    largestStop ws ≤ size ↔ ∀ i stop, ws[4 * i + 2]? = some stop → stop ≤ size := by
  induction ws using largestStop.induct with
  | case1 frame start stop next rest ih =>
    rw [largestStop, max_le_iff_offset, ih]
    constructor
    · rintro ⟨hfirst, hrest⟩ i stop' hstop
      cases i with
      | zero =>
        obtain rfl := Option.some.inj hstop
        exact hfirst
      | succ i => exact hrest i stop' hstop
    · exact fun h => ⟨h 0 stop rfl, fun i => h (i + 1)⟩
  | case2 frame start stop =>
    rw [largestStop]
    constructor
    · intro hfirst i stop' hstop
      cases i with
      | zero =>
        obtain rfl := Option.some.inj hstop
        exact hfirst
      | succ i => cases hstop
    · exact fun h => h 0 stop rfl
  | case3 ws hlong hthree =>
    rw [largestStop.eq_3 ws hlong hthree]
    refine iff_of_true UInt32.zero_le fun i stop hstop => ?_
    -- a list that has a third word is one of the other two
    obtain ⟨hlt, -⟩ := List.getElem?_eq_some_iff.1 hstop
    match ws with
    | [] | [_] | [_, _] =>
      simp only [List.length_cons, List.length_nil] at hlt
      omega
    | [frame, start, stop] => exact absurd rfl (hthree frame start stop)
    | frame :: start :: stop :: next :: rest => exact absurd rfl (hlong frame start stop next rest)

/-- It is one of them, unless there is none that is not zero. -/
theorem largestStop_eq_zero_or (ws : List UInt32) :
    largestStop ws = 0 ∨ ∃ i, ws[4 * i + 2]? = some (largestStop ws) := by
  induction ws using largestStop.induct with
  | case1 frame start stop next rest ih =>
    rw [largestStop, UInt32.max_def]
    split
    · refine ih.imp_right ?_
      rintro ⟨i, hi⟩
      exact ⟨i + 1, hi⟩
    · exact .inr ⟨0, rfl⟩
  | case2 frame start stop => exact .inr ⟨0, rfl⟩
  | case3 ws hlong hthree => exact .inl (largestStop.eq_3 ws hlong hthree)

/-- The third word of a record is where it stops. -/
theorem stop_of_recordAt? {index : Nat} {r : Record} (h : c.recordAt? index = some r) :
    c.words[index + 2]? = some r.stop := by
  unfold recordAt? at h
  split at h
  · rename_i frame start stop next rest hwords
    obtain rfl := Option.some.inj h
    rw [← List.getElem?_drop, hwords]
    rfl
  · cases h

/-- A record starts at every word that three more follow. -/
theorem exists_recordAt? {index : Nat} (h : index + Record.width ≤ c.length) :
    ∃ r, c.recordAt? index = some r := by
  have hleft : Record.width ≤ (c.words.drop index).length := by
    rw [List.length_drop]
    exact Nat.le_sub_of_add_le' h
  unfold recordAt?
  split
  · exact ⟨_, rfl⟩
  · rename_i hshort
    match hdrop : c.words.drop index with
    | [] | [_] | [_, _] | [_, _, _] =>
      rw [hdrop] at hleft
      simp [Record.width] at hleft
    | frame :: start :: stop :: next :: rest =>
      exact absurd hdrop (hshort frame start stop next rest)

/-- Where words fill whole records, every third word is that of a record. -/
theorem exists_record_of_stop (hwhole : c.length % Record.width = 0) {i : Nat} {stop : Offset}
    (h : c.words[4 * i + 2]? = some stop) : ∃ r, c.records[i]? = some r ∧ r.stop = stop := by
  obtain ⟨hlt, -⟩ := List.getElem?_eq_some_iff.1 h
  obtain ⟨r, hr⟩ : ∃ r, c.recordAt? (Record.width * i) = some r := by
    refine exists_recordAt? ?_
    rw [length, Record.width] at *
    omega
  refine ⟨r, by rwa [← recordAt?_width_mul], ?_⟩
  exact Option.some.inj ((stop_of_recordAt? hr).symm.trans h)

/-- **The sizes that the check accepts** are those from the largest stop on, or none. -/
theorem check_eq_ok_iff_largestStop : c.check size = .ok () ↔
    largestStop c.words ≤ size ∧ c.check (largestStop c.words) = .ok () := by
  rw [check_eq_ok_iff, check_eq_ok_iff, largestStop_le_iff]
  constructor
  · rintro ⟨hwhole, hfits, hsorted⟩
    -- words that pass fill whole records, so each third word among them is where a record stops
    refine ⟨fun i stop hstop => ?_, hwhole, fun i r hr => ?_, hsorted⟩
    · obtain ⟨r, hr, rfl⟩ := exists_record_of_stop hwhole hstop
      exact (hfits i r hr).stop_le_size
    · have hstop : c.words[4 * i + 2]? = some r.stop :=
        stop_of_recordAt? ((recordAt?_width_mul c i).trans hr)
      exact { hfits i r hr with stop_le_size := largestStop_le_iff.1 UInt32.le_rfl i r.stop hstop }
  · rintro ⟨hbound, hwhole, hfits, hsorted⟩
    refine ⟨hwhole, fun i r hr => ?_, hsorted⟩
    have hstop : c.words[4 * i + 2]? = some r.stop :=
      stop_of_recordAt? ((recordAt?_width_mul c i).trans hr)
    exact { hfits i r hr with stop_le_size := hbound i r.stop hstop }

end Chain

/-! ## (2) Calls -/

/-- A step that is repeated until it misses, each time from the cursor that it gave last. -/
inductive Calls (step : Nat → Except Fault Found) : Nat → List (Nat × Found) → Prop
  | miss {cursor after : Nat} : step cursor = .ok (none, after) →
    Calls step cursor [(cursor, none, after)]
  | hit {cursor after : Nat} {f : FrameId} {calls : List (Nat × Found)} :
    step cursor = .ok (some f, after) → Calls step after calls →
    Calls step cursor ((cursor, some f, after) :: calls)

namespace FrameReport

/-- A call on a line: the cursor that it starts from, what it finds and the cursor that it gives. -/
def callLine (call : Nat × Found) : String :=
  "cursor " ++ toString call.1 ++ " -> " ++ foundWord call.2.1 ++ ", " ++ toString call.2.2

/-- The items of a JSON list of frames are their numbers. -/
theorem compactItems_numbers (fs : List FrameId) :
    JsonTree.compactItems (fs.map fun f => .number f.toNat) = fs.map toString := by
  induction fs with
  | nil => rfl
  | cons f fs ih =>
    rw [List.map_cons, JsonTree.compactItems, ih]
    rfl

/-- The JSON list has the frames in their order, with commas between them. -/
theorem json_eq (fs : List FrameId) :
    json fs = "[" ++ ",".intercalate (fs.map toString) ++ "]" ++ "\n" := by
  rw [json, JsonTree.compact, compactItems_numbers]

end FrameReport

/-- The steps of a walk are calls, each of which resumes where the one before ended. -/
theorem Chain.exists_calls_of_walk {c : Chain} {offset cursor : Nat} {steps : List Found}
    (h : c.walk offset cursor = .ok steps) :
    ∃ calls, Calls (c.nextFrame offset) cursor calls ∧
      FrameReport.stepLines cursor steps = calls.map FrameReport.callLine := by
  fun_induction walk c offset cursor generalizing steps with
  | case1 => cases h
  | case2 cursor after hmiss =>
    obtain rfl := Except.ok.inj h
    exact ⟨_, .miss hmiss, rfl⟩
  | case3 cursor f after hhit ih =>
    cases hrest : c.walk offset after with
    | error e =>
      rw [hrest] at h
      cases h
    | ok rest =>
      rw [hrest] at h
      obtain rfl := Except.ok.inj h
      obtain ⟨calls, hcalls, hlines⟩ := ih hrest
      exact ⟨_, .hit hhit hcalls, congrArg _ hlines⟩

/-! ## (3) What is printed -/

namespace DecodeRequest

variable {r : DecodeRequest} {text : String}

/-- **Something is printed** exactly if the chain passes the check, since a walk on it comes to an
end then. -/
theorem execute_eq_printed_iff : r.execute = .printed text ↔
    r.chain.check r.size = .ok () ∧
      ∃ steps, r.chain.walk r.offset.toNat 0 = .ok steps ∧ text = r.render steps := by
  unfold execute
  cases hcheck : r.chain.check r.size with
  | error e => simp
  | ok _ =>
    obtain ⟨steps, hwalk⟩ := Chain.exists_walk_of_check hcheck r.offset.toNat 0
    rw [Nat.mul_zero] at hwalk
    simp [hwalk, eq_comm]

/-- A chain that passes the check is accepted: its walk comes to an end, and is printed. -/
theorem exists_printed_iff_check :
    (∃ text, r.execute = .printed text) ↔ r.chain.check r.size = .ok () := by
  constructor
  · rintro ⟨text, h⟩
    exact (execute_eq_printed_iff.1 h).1
  · intro hcheck
    obtain ⟨steps, hwalk⟩ := Chain.exists_walk_of_check hcheck r.offset.toNat 0
    exact ⟨r.render steps, execute_eq_printed_iff.2 ⟨hcheck, steps, hwalk, rfl⟩⟩

/-- What is printed for a size is also printed without one. -/
theorem execute_unsized {chain : Chain} {offset : Offset} {size : UInt32} {steps json : Bool}
    (h : execute ⟨chain, offset, some size, steps, json⟩ = .printed text) :
    execute ⟨chain, offset, none, steps, json⟩ = .printed text := by
  obtain ⟨hcheck, hprinted⟩ := execute_eq_printed_iff.1 h
  exact execute_eq_printed_iff.2 ⟨(Chain.check_eq_ok_iff_largestStop.1 hcheck).2, hprinted⟩

/-- The frames of a walk, behind its calls if these are wanted. -/
theorem render_eq (r : DecodeRequest) {found : List Found} {calls : List (Nat × Found)}
    (hlines : FrameReport.stepLines 0 found = calls.map FrameReport.callLine) :
    r.render found =
      (if r.steps then String.join (calls.map fun call => FrameReport.callLine call ++ "\n")
        else "") ++
      if r.json then "[" ++ ",".intercalate ((FrameReport.frames found).map toString) ++ "]" ++ "\n"
      else String.join ((FrameReport.frames found).map fun f => toString f ++ "\n") := by
  rw [render, hlines, ← FrameReport.json_eq, ← FrameReport.lines]
  cases r.steps with
  | false => rfl
  | true => simp [List.map_map, Function.comp_def]

/-- **The size of the region may be left open.** The size that is taken then is the largest third
word of the groups of four, or zero, and the check accepts exactly the sizes from there on, unless
it accepts none. A request is accepted, so that something is printed, exactly if the chain passes
the check for the size. So it is accepted without a size if and only if it is accepted with one, and
it prints the same then as with every size with which it is accepted. What it prints, be it on lines
or as JSON, are the frames that one search after the other yields from the first word on; in front
of them, if the steps are wanted, stands a line for each search, which starts from the cursor that
the search before gave, and only the last one is a miss. -/
theorem region_size_optional (chain : Chain) (offset : Offset) :
    let least := Chain.largestStop chain.words
    let decode (regionSize : Option UInt32) (steps json : Bool) : Outcome :=
      execute ⟨chain, offset, regionSize, steps, json⟩
    (∀ i stop, chain.words[4 * i + 2]? = some stop → stop ≤ least) ∧
    (least = 0 ∨ ∃ i, chain.words[4 * i + 2]? = some least) ∧
    (∀ size, chain.check size = .ok () ↔ least ≤ size ∧ chain.check least = .ok ()) ∧
    (∀ regionSize steps json, (∃ text, decode regionSize steps json = .printed text) ↔
      chain.check (regionSize.getD least) = .ok ()) ∧
    (∀ steps json, (∃ text, decode none steps json = .printed text) ↔
      ∃ size text, decode (some size) steps json = .printed text) ∧
    (∀ steps json size text, decode (some size) steps json = .printed text →
      decode none steps json = .printed text) ∧
    ((∃ steps json text, decode none steps json = .printed text) →
      ∃ frames calls, Yields (chain.nextFrame offset.toNat) 0 frames ∧
        Calls (chain.nextFrame offset.toNat) 0 calls ∧
        ∀ steps json, decode none steps json = .printed (
          (if steps then String.join (calls.map fun call => FrameReport.callLine call ++ "\n")
            else "") ++
          if json then "[" ++ ",".intercalate (frames.map toString) ++ "]" ++ "\n"
          else String.join (frames.map fun f => toString f ++ "\n"))) := by
  intro least decode
  refine ⟨Chain.largestStop_le_iff.1 UInt32.le_rfl, Chain.largestStop_eq_zero_or chain.words,
    fun size => Chain.check_eq_ok_iff_largestStop,
    fun regionSize steps json => exists_printed_iff_check, fun steps json => ⟨?_, ?_⟩,
    fun steps json size text => execute_unsized, ?_⟩
  · rintro ⟨text, h⟩
    exact ⟨least, text, h⟩
  · rintro ⟨size, text, h⟩
    exact ⟨text, execute_unsized h⟩
  · -- one walk gives the frames and the calls for every form of the output
    rintro ⟨steps, json, text, h⟩
    obtain ⟨hcheck, found, hwalk, -⟩ := execute_eq_printed_iff.1 h
    obtain ⟨calls, hcalls, hlines⟩ := Chain.exists_calls_of_walk hwalk
    refine ⟨FrameReport.frames found, calls, Chain.yields_of_walk hwalk, hcalls,
      fun steps json => ?_⟩
    exact execute_eq_printed_iff.2 ⟨hcheck, found, hwalk, (render_eq ⟨_, _, _, _, _⟩ hlines).symm⟩

/-- Two frames, the second one nested in the first, with a line for each search. -/
example : execute ⟨⟨[4, 0, 600, 8, 2, 100, 300, 8]⟩, 200, none, true, true⟩ = .printed (
    "cursor 0 -> Some(4), 4\ncursor 4 -> Some(2), 8\ncursor 8 -> None, 8\n[4,2]\n") := by
  decide +kernel

end DecodeRequest

end TraceAtlas
