-- The program worker (program_worker.py): the loop that reads the two pipes of the
-- child, and what the worker makes of what it has read.
import FlynnAgents.ParseJson

namespace FlynnAgents

open Text (ofString)
open JsonText (Tree)

/-! ## The read loop -/

/-- `ProgramLimits.__post_init__`, of the limits that are integers. -/
structure ProgramLimits where
  cpuSeconds : Int := 2
  memoryBytes : Int := 256 * 1024 * 1024
  outputBytes : Int := 1024 * 1024
  inputBytes : Int := 1024 * 1024
  accepted : (1 ≤ cpuSeconds ∧ cpuSeconds ≤ 60) ∧
    (64 * 1024 * 1024 ≤ memoryBytes ∧ memoryBytes ≤ 2 * 1024 ^ 3) ∧
    (1024 ≤ outputBytes ∧ outputBytes ≤ 2 * 1024 ^ 2) ∧
    (1024 ≤ inputBytes ∧ inputBytes ≤ 2 * 1024 ^ 2)

inductive Pipe where
  | stdout
  | stderr
  deriving DecidableEq, Repr

/-- One turn of the loop: whether the wall limit has passed, and if not, what each
pipe that is ready gives, an empty read at its end. -/
structure Poll where
  expired : Bool := false
  ready : Pipe → Option (List UInt8) := fun _ => none
  stderrFirst : Bool := false

/-- The buffers of the loop and the pipes that are registered. The reads are kept
beside them, as they were made. -/
structure Reader where
  buffer : Pipe → List UInt8 := fun _ => []
  registered : Pipe → Bool := fun _ => true
  reads : List (Pipe × List UInt8) := []

/-- `data[:room]` -/
def slice (data : List UInt8) (room : Int) : List UInt8 :=
  if 0 ≤ room then data.take room.toNat else data.take (data.length - (-room).toNat)

/-- `output_bytes - len(output) - len(errors)` -/
def Reader.room (r : Reader) (limit : Int) : Int :=
  limit - (r.buffer .stdout).length - (r.buffer .stderr).length

/-- One read of a pipe, and whether the loop stops there. -/
def Reader.read (r : Reader) (limit : Int) (pipe : Pipe) (data : List UInt8) : Reader × Bool :=
  let reads := r.reads ++ [(pipe, data)]
  if data = [] then
    ({ r with registered := fun p => if p = pipe then false else r.registered p, reads }, false)
  else
    ({ r with
        buffer := fun p => if p = pipe then r.buffer p ++ slice data (r.room limit) else r.buffer p
        reads },
      decide (r.room limit < data.length))

/-- The reads of one turn, up to the one that stops the loop. -/
def Reader.readAll (r : Reader) (limit : Int) : List (Pipe × List UInt8) → Reader × Bool
  | [] => (r, false)
  | (pipe, data) :: rest =>
    match r.read limit pipe data with
    | (r, true) => (r, true)
    | (r, false) => r.readAll limit rest

/-- What `selector.select` gives: the registered pipes that are ready. -/
def Poll.events (poll : Poll) (registered : Pipe → Bool) : List (Pipe × List UInt8) :=
  let pipes := if poll.stderrFirst then [Pipe.stderr, .stdout] else [.stdout, .stderr]
  (pipes.filter registered).filterMap fun p => (poll.ready p).map fun data => (p, data)

inductive Failure where
  | timeout
  | outputLimit
  deriving DecidableEq, Repr

/-- `while selector.get_map()` -/
def Reader.loop (limit : Int) (polls : Nat → Poll) :
    Nat → Nat → Reader → Option (Reader × Option Failure)
  | fuel, i, r =>
    if r.registered .stdout = false ∧ r.registered .stderr = false then some (r, none)
    else match fuel with
      | 0 => none
      | fuel + 1 =>
        if (polls i).expired then some (r, some .timeout)
        else match r.readAll limit ((polls i).events r.registered) with
          | (r, true) => some (r, some .outputLimit)
          | (r, false) => Reader.loop limit polls fuel (i + 1) r

/-! ## The classification -/

/-- What `run` returns, without the elapsed time. The bytes of stderr stand for their text. -/
structure ProgramResult where
  ok : Bool
  value : Option (Value Text) := none
  error : Option Text := none
  returncode : Int
  stderr : List UInt8

def Failure.text : Failure → Text
  | .timeout => ofString "timeout"
  | .outputLimit => ofString "output_limit"

/-- How the child ended: whether waiting for it timed out, and its exit code. -/
structure Ending where
  waitExpired : Bool
  returncode : Int

/-- What the decoded stdout says: the value of a success, or the error of a failure. -/
def envelope : Value Text → Option (Except Text (Value Text))
  | .dict fields =>
    match Value.get (ofString "ok") fields with
    | some (.bool true) =>
      if Value.keysAre [ofString "ok", ofString "value"] fields then
        (Value.get (ofString "value") fields).map .ok
      else none
    | some (.bool false) =>
      if Value.keysAre [ofString "ok", ofString "error"] fields then
        match Value.get (ofString "error") fields with
        | some (.str s) => some (.error s)
        | _ => none
      else none
    | _ => none
  | _ => none

/-- `json.loads` of the worker. Whether a document nests past the recursion limit is a
parameter: then `json.loads` raises, at that depth or before. -/
def workerLoads (deep : Tree → Bool) (text : Text) : Option (Value Text) :=
  (JsonText.scan text).bind fun tree => if deep tree then none else workerHooks.decode tree

/-- The result after the read loop. How bytes are decoded to text is a parameter. -/
def classify (decodeBytes : List UInt8 → Option Text) (deep : Tree → Bool) (r : Reader)
    (failure : Option Failure) (ending : Ending) : ProgramResult :=
  let failure := match failure with
    | some f => some f
    | none => if ending.waitExpired then some .timeout else none
  let result : ProgramResult :=
    { ok := false, returncode := ending.returncode, stderr := r.buffer .stderr }
  match failure with
  | some f => { result with error := some f.text }
  | none =>
    if ending.returncode ≠ 0 then { result with error := some (ofString "execution_failed") }
    else match ((decodeBytes (r.buffer .stdout)).bind (workerLoads deep)).bind envelope with
      | some (.ok v) => { result with ok := true, value := some v }
      | some (.error s) => { result with error := some (ofString "program_error:" ++ s) }
      | none => { result with error := some (ofString "invalid_output") }

/-- `run`, from the start of the read loop. -/
def runWorker (decodeBytes : List UInt8 → Option Text) (deep : Tree → Bool)
    (limits : ProgramLimits) (polls : Nat → Poll) (ending : Ending) (fuel : Nat) :
    Option (Reader × ProgramResult) :=
  (Reader.loop limits.outputBytes polls fuel 0 {}).map fun (r, failure) =>
    (r, classify decodeBytes deep r failure ending)

/-! ## The bound -/

/-- The bytes that the pipe has delivered. -/
def Reader.delivered (r : Reader) (pipe : Pipe) : List UInt8 :=
  (r.reads.filter fun e => e.1 = pipe).flatMap Prod.snd

/-- The bytes read from both pipes. -/
def Reader.total (r : Reader) : Nat :=
  (r.delivered .stdout).length + (r.delivered .stderr).length

/-- Each buffer holds all that its pipe has delivered. -/
def Reader.Whole (r : Reader) : Prop := ∀ p, r.buffer p = r.delivered p

/-- The readers of the loop, after any reads in any order. -/
inductive Reading (limit : Int) : Reader → Prop where
  | start : Reading limit {}
  | read {r : Reader} (h : Reading limit r) (pipe : Pipe) (data : List UInt8) :
      Reading limit (r.read limit pipe data).1

/-- The buffers stay within the limit, and hold a beginning of what was delivered. -/
structure Within (limit : Int) (r : Reader) : Prop where
  nonneg : 0 ≤ r.room limit
  begins : ∀ p, r.buffer p <+: r.delivered p
  full : r.room limit = 0 ∨ r.Whole
  ended : ∀ p, r.registered p = false ↔ (p, []) ∈ r.reads

variable {limit : Int} {r r' : Reader} {pipe : Pipe} {data : List UInt8} {stopped : Bool}

theorem delivered_append (reads : List (Pipe × List UInt8)) (e : Pipe × List UInt8) (p : Pipe) :
    ((reads ++ [e]).filter fun e => e.1 = p).flatMap Prod.snd =
      (reads.filter fun e => e.1 = p).flatMap Prod.snd ++ if e.1 = p then e.2 else [] := by
  rw [List.filter_append, List.flatMap_append]
  by_cases h : e.1 = p
  · simp [h]
  · simp [h]

theorem delivered_read (r : Reader) (limit : Int) (pipe : Pipe) (data : List UInt8) (p : Pipe) :
    (r.read limit pipe data).1.delivered p = r.delivered p ++ if pipe = p then data else [] := by
  unfold Reader.read
  split
  · exact delivered_append r.reads (pipe, data) p
  · exact delivered_append r.reads (pipe, data) p

theorem buffer_read (h : data ≠ []) (p : Pipe) : (r.read limit pipe data).1.buffer p =
    if p = pipe then r.buffer p ++ slice data (r.room limit) else r.buffer p := by
  unfold Reader.read
  rw [if_neg h]

theorem buffer_read_end (h : data = []) (p : Pipe) :
    (r.read limit pipe data).1.buffer p = r.buffer p := by
  unfold Reader.read
  rw [if_pos h]

theorem stopped_read (r : Reader) (limit : Int) (pipe : Pipe) (data : List UInt8) :
    (r.read limit pipe data).2 = true ↔ data ≠ [] ∧ r.room limit < data.length := by
  unfold Reader.read
  split
  · simp [*]
  · simp [*]

theorem room_read (h : data ≠ []) : (r.read limit pipe data).1.room limit =
    r.room limit - (slice data (r.room limit)).length := by
  have hout := @buffer_read limit r pipe data h .stdout
  have herr := @buffer_read limit r pipe data h .stderr
  unfold Reader.room at hout herr ⊢
  rw [hout, herr]
  cases pipe with
  | stdout =>
    rw [if_pos rfl, if_neg (by decide), List.length_append]
    omega
  | stderr =>
    rw [if_neg (by decide), if_pos rfl, List.length_append]
    omega

theorem slice_take (h : 0 ≤ r.room limit) :
    slice data (r.room limit) = data.take (r.room limit).toNat := if_pos h

/-- A read that does not stop the loop leaves the buffers whole. -/
theorem whole_read (hw : r.Whole) (hn : 0 ≤ r.room limit)
    (hs : (r.read limit pipe data).2 = false) : (r.read limit pipe data).1.Whole := by
  intro p
  rw [delivered_read]
  by_cases hd : data = []
  · rw [buffer_read_end hd, hw p, hd]
    simp
  · have hfits : ¬ r.room limit < data.length := by
      intro hlong
      rw [(stopped_read r limit pipe data).mpr ⟨hd, hlong⟩] at hs
      cases hs
    rw [buffer_read hd, slice_take hn, List.take_of_length_le (by omega), hw p]
    by_cases hp : p = pipe
    · rw [if_pos hp, if_pos hp.symm]
    · rw [if_neg hp, if_neg (Ne.symm hp), List.append_nil]

theorem Within.read (h : Within limit r) (pipe : Pipe) (data : List UInt8) :
    Within limit (r.read limit pipe data).1 := by
  by_cases hd : data = []
  · have hroom : (r.read limit pipe data).1.room limit = r.room limit := by
      unfold Reader.room
      rw [buffer_read_end hd, buffer_read_end hd]
    have hdelivered : ∀ p, (r.read limit pipe data).1.delivered p = r.delivered p := by
      intro p
      rw [delivered_read, hd]
      simp
    refine ⟨by rw [hroom]; exact h.nonneg, ?_, ?_, ?_⟩
    · intro p
      rw [hdelivered, buffer_read_end hd]
      exact h.begins p
    · rw [hroom]
      refine h.full.imp id fun hw p => ?_
      rw [hdelivered, buffer_read_end hd]
      exact hw p
    · intro p
      unfold Reader.read
      rw [if_pos hd]
      by_cases hp : p = pipe
      · simp [hp, hd]
      · simp [hp, hd, h.ended p]
  · have hslice := @slice_take limit r data h.nonneg
    have hroom := @room_read limit r pipe data hd
    have hlength : (slice data (r.room limit)).length = min (r.room limit).toNat data.length := by
      rw [hslice, List.length_take]
    have hnonneg := h.nonneg
    refine ⟨by omega, ?_, ?_, ?_⟩
    · intro p
      rw [buffer_read hd, delivered_read]
      by_cases hp : p = pipe
      · rw [if_pos hp, if_pos hp.symm, hslice]
        rcases h.full with hzero | hw
        · rw [hzero]
          simpa using (h.begins p).trans (List.prefix_append _ data)
        · rw [hw p]
          exact List.prefix_append_right_inj _ |>.mpr (List.take_prefix _ data)
      · rw [if_neg hp, if_neg (Ne.symm hp), List.append_nil]
        exact h.begins p
    · by_cases hlong : r.room limit < data.length
      · left
        omega
      · rcases h.full with hzero | hw
        · left
          omega
        · right
          apply whole_read hw h.nonneg
          by_contra hs
          exact hlong ((stopped_read r limit pipe data).mp (by simpa using hs)).2
    · intro p
      unfold Reader.read
      rw [if_neg hd]
      simp [h.ended p, Ne.symm hd]

/-- At any time, whatever was read in whatever order. -/
theorem Reading.within (hl : 0 ≤ limit) (h : Reading limit r) : Within limit r := by
  induction h with
  | start =>
    refine ⟨?_, ?_, .inr fun p => rfl, ?_⟩
    · simpa [Reader.room] using hl
    · intro p
      exact List.prefix_refl _
    · intro p
      simp
  | read h pipe data ih => exact ih.read pipe data

/-- Whole buffers show how much was read. -/
theorem Reader.Whole.total_eq (h : r.Whole) : (r.total : Int) = limit - r.room limit := by
  unfold Reader.total Reader.room
  rw [h .stdout, h .stderr]
  omega

/-- A read that stops the loop is one too long. -/
theorem stopped_total (hw : r.Whole) (hs : (r.read limit pipe data).2 = true) :
    limit < (r.read limit pipe data).1.total := by
  obtain ⟨-, hlong⟩ := (stopped_read r limit pipe data).mp hs
  have htotal := @Reader.Whole.total_eq limit r hw
  unfold Reader.total at htotal ⊢
  rw [delivered_read, delivered_read]
  cases pipe with
  | stdout =>
    rw [if_pos rfl, if_neg (by decide)]
    simp only [List.length_append, List.length_nil]
    omega
  | stderr =>
    rw [if_neg (by decide), if_pos rfl]
    simp only [List.length_append, List.length_nil]
    omega

/-! ## The loop -/

/-- Where reading stands: nothing was cut, or the limit was passed. -/
structure Stands (limit : Int) (r : Reader) (stopped : Bool) : Prop where
  reading : Reading limit r
  whole : stopped = false → r.Whole
  passed : stopped = true → limit < r.total

theorem readAll_stands (hl : 0 ≤ limit) (events : List (Pipe × List UInt8))
    (h : Stands limit r false) (he : r.readAll limit events = (r', stopped)) :
    Stands limit r' stopped := by
  induction events generalizing r with
  | nil =>
    cases he
    exact h
  | cons e events ih =>
    obtain ⟨pipe, data⟩ := e
    unfold Reader.readAll at he
    have hreading := h.reading.read pipe data
    have hnonneg := (h.reading.within hl).nonneg
    cases hread : r.read limit pipe data with
    | mk r₁ b =>
      rw [hread] at he hreading
      cases b with
      | true =>
        cases he
        refine ⟨hreading, fun hn => (by cases hn), fun _ => ?_⟩
        have hpassed := @stopped_total limit r pipe data (h.whole rfl) (by rw [hread])
        rwa [hread] at hpassed
      | false =>
        refine ih ⟨hreading, fun _ => ?_, fun hn => by cases hn⟩ he
        have hwhole := whole_read (h.whole rfl) hnonneg
          (show (r.read limit pipe data).2 = false by rw [hread])
        rwa [hread] at hwhole

/-- How the loop ends. -/
structure Ended (limit : Int) (r : Reader) (failure : Option Failure) : Prop where
  reading : Reading limit r
  closed : failure = none → ∀ p, r.registered p = false
  whole : failure ≠ some .outputLimit → r.Whole
  passed : failure = some .outputLimit → limit < r.total

theorem loop_ended (hl : 0 ≤ limit) {polls : Nat → Poll} {fuel i : Nat} {failure : Option Failure}
    (h : Stands limit r false) (he : Reader.loop limit polls fuel i r = some (r', failure)) :
    Ended limit r' failure := by
  induction fuel generalizing i r with
  | zero =>
    unfold Reader.loop at he
    split at he
    · rename_i hclosed
      cases he
      refine ⟨h.reading, ?_, fun _ => h.whole rfl, fun hn => by cases hn⟩
      rintro - (_ | _)
      · exact hclosed.1
      · exact hclosed.2
    · cases he
  | succ fuel ih =>
    unfold Reader.loop at he
    split at he
    · rename_i hclosed
      cases he
      refine ⟨h.reading, ?_, fun _ => h.whole rfl, fun hn => by cases hn⟩
      rintro - (_ | _)
      · exact hclosed.1
      · exact hclosed.2
    · simp only at he
      split at he
      · cases he
        exact ⟨h.reading, fun hn => (by cases hn), fun _ => h.whole rfl, fun hn => by cases hn⟩
      · cases hall : r.readAll limit ((polls i).events r.registered) with
        | mk r₁ b =>
          rw [hall] at he
          have hstands := readAll_stands hl _ h hall
          cases b with
          | true =>
            cases he
            exact ⟨hstands.reading, fun hn => (by cases hn), fun hn => absurd rfl hn,
              fun _ => hstands.passed rfl⟩
          | false => exact ih hstands he

/-- Once the wall limit passes, the loop has ended. -/
theorem loop_returns {polls : Nat → Poll} {j : Nat} (hj : (polls j).expired = true) (r : Reader)
    (room i : Nat) (hroom : j = i + room) :
    ∃ out, ∀ fuel, room < fuel → Reader.loop limit polls fuel i r = some out := by
  by_cases hclosed : r.registered .stdout = false ∧ r.registered .stderr = false
  · refine ⟨(r, none), fun fuel _ => ?_⟩
    unfold Reader.loop
    exact if_pos hclosed
  · induction room generalizing i r with
    | zero =>
      refine ⟨(r, some .timeout), fun fuel hfuel => ?_⟩
      obtain ⟨fuel, rfl⟩ : ∃ n, fuel = n + 1 := ⟨fuel - 1, by omega⟩
      unfold Reader.loop
      rw [if_neg hclosed]
      simp only
      rw [if_pos (by rw [← hj, hroom, Nat.add_zero])]
    | succ room ih =>
      by_cases hexpired : (polls i).expired = true
      · refine ⟨(r, some .timeout), fun fuel hfuel => ?_⟩
        obtain ⟨fuel, rfl⟩ : ∃ n, fuel = n + 1 := ⟨fuel - 1, by omega⟩
        unfold Reader.loop
        rw [if_neg hclosed]
        simp only
        rw [if_pos hexpired]
      · cases hall : r.readAll limit ((polls i).events r.registered) with
        | mk r₁ b =>
          cases b with
          | true =>
            refine ⟨(r₁, some .outputLimit), fun fuel hfuel => ?_⟩
            obtain ⟨fuel, rfl⟩ : ∃ n, fuel = n + 1 := ⟨fuel - 1, by omega⟩
            unfold Reader.loop
            rw [if_neg hclosed]
            simp only
            rw [if_neg hexpired, hall]
          | false =>
            have hnext : ∃ out, ∀ fuel, room < fuel →
                Reader.loop limit polls fuel (i + 1) r₁ = some out := by
              by_cases hclosed₁ : r₁.registered .stdout = false ∧ r₁.registered .stderr = false
              · refine ⟨(r₁, none), fun fuel _ => ?_⟩
                unfold Reader.loop
                exact if_pos hclosed₁
              · exact ih r₁ (i + 1) (by omega) hclosed₁
            obtain ⟨out, hout⟩ := hnext
            refine ⟨out, fun fuel hfuel => ?_⟩
            obtain ⟨fuel, rfl⟩ : ∃ n, fuel = n + 1 := ⟨fuel - 1, by omega⟩
            unfold Reader.loop
            rw [if_neg hclosed]
            simp only
            rw [if_neg hexpired, hall]
            exact hout fuel (by omega)

/-! ## What a result means -/

/-- The error classes of a result that is not ok. -/
def errorClass (error : Text) : Prop :=
  error = ofString "timeout" ∨ error = ofString "output_limit" ∨
    error = ofString "execution_failed" ∨ error = ofString "invalid_output" ∨
    ∃ s, error = ofString "program_error:" ++ s

/-- What a success rests on. -/
structure Succeeded (decodeBytes : List UInt8 → Option Text) (limit : Int) (ending : Ending)
    (r : Reader) (result : ProgramResult) : Prop where
  ended : ∀ p, (p, []) ∈ r.reads
  unlimited : r.total ≤ limit
  waited : ending.waitExpired = false
  exited : ending.returncode = 0
  whole : r.buffer .stdout = r.delivered .stdout
  decoded : ∃ text fields v, decodeBytes (r.buffer .stdout) = some text ∧
    workerHooks.loads text = some (.dict fields) ∧
    Value.keysAre [ofString "ok", ofString "value"] fields = true ∧
    Value.get (ofString "ok") fields = some (.bool true) ∧
    Value.get (ofString "value") fields = some v ∧ result.value = some v

theorem workerLoads_eq_some {deep : Tree → Bool} {text : Text} {v : Value Text} :
    workerLoads deep text = some v ↔ ∃ tree, JsonText.scan text = some tree ∧
      deep tree = false ∧ workerHooks.decode tree = some v := by
  unfold workerLoads
  rw [Option.bind_eq_some_iff]
  refine exists_congr fun tree => and_congr_right fun _ => ?_
  cases deep tree <;> simp

/-- The recursion limit only takes documents away. -/
theorem loads_of_workerLoads {deep : Tree → Bool} {text : Text} {v : Value Text}
    (h : workerLoads deep text = some v) : workerHooks.loads text = some v := by
  obtain ⟨tree, hscan, -, hdecode⟩ := workerLoads_eq_some.mp h
  unfold Hooks.loads
  rw [hscan, Option.bind_some, hdecode]

theorem envelope_ok {document v : Value Text} (h : envelope document = some (.ok v)) :
    ∃ fields, document = .dict fields ∧
      Value.keysAre [ofString "ok", ofString "value"] fields = true ∧
      Value.get (ofString "ok") fields = some (.bool true) ∧
      Value.get (ofString "value") fields = some v := by
  unfold envelope at h
  split at h
  · rename_i fields
    split at h
    · rename_i hok
      split at h
      · obtain ⟨w, hw, heq⟩ := Option.map_eq_some_iff.mp h
        cases heq
        exact ⟨fields, rfl, ‹_›, hok, hw⟩
      · cases h
    · split at h
      · split at h
        · cases h
        · cases h
      · cases h
    · cases h
  · cases h

/-- The output of a worker is bounded, and its result is classified by what was read. -/
structure Classified (decodeBytes : List UInt8 → Option Text) (limit : Int) (ending : Ending)
    (r : Reader) (result : ProgramResult) : Prop where
  within : Within limit r
  outputLimit : result.error = some (ofString "output_limit") ↔ limit < r.total
  succeeded : result.ok = true → Succeeded decodeBytes limit ending r result
  failed : result.ok = false → ∃ error, result.error = some error ∧ errorClass error

theorem classify_classified (decodeBytes : List UInt8 → Option Text) (deep : Tree → Bool)
    (hl : 0 ≤ limit)
    {failure : Option Failure} (h : Ended limit r failure) (ending : Ending) :
    Classified decodeBytes limit ending r (classify decodeBytes deep r failure ending) := by
  have hwithin := h.reading.within hl
  have hunlimited : failure ≠ some .outputLimit → ¬ limit < r.total := by
    intro hn
    have htotal := @Reader.Whole.total_eq limit _ (h.whole hn)
    have := hwithin.nonneg
    omega
  have hprogram : ∀ s : Text, ofString "program_error:" ++ s ≠ ofString "output_limit" := by
    intro s heq
    cases (List.cons.inj heq).1
  cases failure with
  | some f =>
    cases f with
    | timeout =>
      refine ⟨hwithin, ?_, fun hok => (by cases hok), fun _ => ⟨_, rfl, .inl rfl⟩⟩
      refine iff_of_false ?_ (hunlimited (by simp))
      intro heq
      exact absurd (Option.some.inj heq)
        (show ofString "timeout" ≠ ofString "output_limit" by decide)
    | outputLimit =>
      refine ⟨hwithin, ?_, fun hok => (by cases hok), fun _ => ⟨_, rfl, .inr (.inl rfl)⟩⟩
      exact iff_of_true rfl (h.passed rfl)
  | none =>
    have hno := hunlimited (by simp)
    by_cases hwait : ending.waitExpired = true
    · have hresult : (classify decodeBytes deep r none ending).error = some (ofString "timeout") ∧
          (classify decodeBytes deep r none ending).ok = false := by
        unfold classify
        simp only [hwait, if_true]
        exact ⟨rfl, trivial⟩
      refine ⟨hwithin, iff_of_false ?_ hno, ?_, fun _ => ⟨_, hresult.1, .inl rfl⟩⟩
      · rw [hresult.1]
        intro heq
        exact absurd (Option.some.inj heq)
          (show ofString "timeout" ≠ ofString "output_limit" by decide)
      · intro hok
        rw [hresult.2] at hok
        cases hok
    · have hwait : ending.waitExpired = false := by simpa using hwait
      by_cases hexit : ending.returncode = 0
      · cases hdecode :
            ((decodeBytes (r.buffer .stdout)).bind (workerLoads deep)).bind envelope with
        | none =>
          have hresult : classify decodeBytes deep r none ending =
              { ok := false, error := some (ofString "invalid_output"),
                returncode := ending.returncode, stderr := r.buffer .stderr } := by
            unfold classify
            simp only [hwait, Bool.false_eq_true, if_false, hexit, ne_eq, not_true, hdecode]
          rw [hresult]
          refine ⟨hwithin, iff_of_false ?_ hno, fun hok => (by cases hok),
            fun _ => ⟨_, rfl, .inr (.inr (.inr (.inl rfl)))⟩⟩
          intro heq
          exact absurd (Option.some.inj heq)
            (show ofString "invalid_output" ≠ ofString "output_limit" by decide)
        | some e =>
          cases e with
          | error s =>
            have hresult : classify decodeBytes deep r none ending =
                { ok := false, error := some (ofString "program_error:" ++ s),
                  returncode := ending.returncode, stderr := r.buffer .stderr } := by
              unfold classify
              simp only [hwait, Bool.false_eq_true, if_false, hexit, ne_eq, not_true, hdecode]
            rw [hresult]
            refine ⟨hwithin, iff_of_false ?_ hno, fun hok => (by cases hok),
              fun _ => ⟨_, rfl, .inr (.inr (.inr (.inr ⟨s, rfl⟩)))⟩⟩
            intro heq
            exact hprogram s (Option.some.inj heq)
          | ok v =>
            have hresult : classify decodeBytes deep r none ending =
                { ok := true, value := some v, returncode := ending.returncode,
                  stderr := r.buffer .stderr } := by
              unfold classify
              simp only [hwait, Bool.false_eq_true, if_false, hexit, ne_eq, not_true, hdecode]
            rw [hresult]
            refine ⟨hwithin, iff_of_false (by intro heq; cases heq) hno, fun _ => ?_,
              fun hok => (by cases hok)⟩
            obtain ⟨document, hdocument, henvelope⟩ := Option.bind_eq_some_iff.mp hdecode
            obtain ⟨text, htext, hloads⟩ := Option.bind_eq_some_iff.mp hdocument
            obtain ⟨fields, rfl, hkeys, hok, hvalue⟩ := envelope_ok henvelope
            exact {
              ended := fun p => (hwithin.ended p).mp (h.closed rfl p)
              unlimited := not_lt.mp hno
              waited := hwait
              exited := hexit
              whole := h.whole (by simp) .stdout
              decoded := ⟨text, fields, v, htext, loads_of_workerLoads hloads, hkeys, hok, hvalue,
                rfl⟩ }
      · have hresult : classify decodeBytes deep r none ending =
            { ok := false, error := some (ofString "execution_failed"),
              returncode := ending.returncode, stderr := r.buffer .stderr } := by
          unfold classify
          simp only [hwait, Bool.false_eq_true, if_false, ne_eq, hexit, not_false_eq_true, if_true]
        rw [hresult]
        refine ⟨hwithin, iff_of_false ?_ hno, fun hok => (by cases hok),
          fun _ => ⟨_, rfl, .inr (.inr (.inl rfl))⟩⟩
        intro heq
        exact absurd (Option.some.inj heq)
          (show ofString "execution_failed" ≠ ofString "output_limit" by decide)

theorem limit_nonneg (limits : ProgramLimits) : 0 ≤ limits.outputBytes := by
  have h := limits.accepted.2.2.1.1
  omega

/-- However the reads of the two pipes interleave, the buffers stay within the limit at any time.
Once the wall limit passes the worker has a result, and the result says what was read. -/
theorem worker_output_is_bounded (decodeBytes : List UInt8 → Option Text) (deep : Tree → Bool)
    (limits : ProgramLimits) (polls : Nat → Poll) (ending : Ending) :
    (∀ r, Reading limits.outputBytes r → Within limits.outputBytes r) ∧
    (∀ i, (polls i).expired = true → ∃ out, ∀ fuel, i < fuel →
      runWorker decodeBytes deep limits polls ending fuel = some out) ∧
    ∀ fuel r result, runWorker decodeBytes deep limits polls ending fuel = some (r, result) →
      Reading limits.outputBytes r ∧
        Classified decodeBytes limits.outputBytes ending r result := by
  have hl := limit_nonneg limits
  refine ⟨fun r h => h.within hl, ?_, ?_⟩
  · intro i hi
    obtain ⟨out, hout⟩ := @loop_returns limits.outputBytes _ _ hi {} i 0 (by omega)
    refine ⟨(out.1, classify decodeBytes deep out.1 out.2 ending), fun fuel hfuel => ?_⟩
    unfold runWorker
    rw [hout fuel hfuel]
    rfl
  · intro fuel r result h
    unfold runWorker at h
    obtain ⟨⟨r', failure⟩, hloop, heq⟩ := Option.map_eq_some_iff.mp h
    cases heq
    have hended := loop_ended hl ⟨.start, fun _ p => rfl, fun hn => by cases hn⟩ hloop
    exact ⟨hended.reading, classify_classified decodeBytes deep hl hended ending⟩

/-! ## Finite and unambiguous results -/

/-- The child has exited with code 0 in time. -/
def exitedInTime : Ending := ⟨false, 0⟩

/-- Bytes of ASCII as text. -/
def ascii (bytes : List UInt8) : Option Text :=
  some (bytes.map fun b => Fin.ofNat 0x110000 b.toNat)

mutual

/-- How deep lists and objects stand in each other. -/
def nesting : Tree → Nat
  | .arr items => nestingItems items + 1
  | .obj fields => nestingFields fields + 1
  | _ => 0

def nestingItems : List Tree → Nat
  | [] => 0
  | item :: items => max (nesting item) (nestingItems items)

def nestingFields : List (Text × Tree) → Nat
  | [] => 0
  | (_, value) :: fields => max (nesting value) (nestingFields fields)

end

/-- Deeper than a recursion limit of 1000 has room for, some of it in use. -/
def passesLimit (tree : Tree) : Bool := decide (900 < nesting tree)

end FlynnAgents
