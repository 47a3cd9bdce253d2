import DuckLake.Lib.FirstError
import DuckLake.Lib.Lists
import Mathlib.Logic.Relation

/- The rows of a merge in source order, read ahead (`compaction.rs`,
   `source_ordered_output`).

   The partitions of the input are read one after another. While one is emitted, up to
   `read_ahead` later ones are read by producers, each into a channel of one batch. A
   producer reserves memory for each batch; once the pool refuses, it hands its reader
   back, the others follow, and what is left is read in place.

   The consumer and the producers move in any order, and the pool refuses whenever it
   likes: a `Choice` says who moves and what the pool answers. What is left to emit is
   spread over the channels, the batches producers hold, the readers and the partitions
   not yet opened; each move keeps their concatenation, up to its first error
   (`Delivers`), and each move uses up some of it (`work_step`).

   Correspondence (Rust ↔ Lean):
     `input.execute(p)`               ↔ `partitions[p]`, an error or the results its stream has
     `ReadAheadPartition`, `CurrentPartition`, `ReadAhead`, `ReadAheadShared` ↔ the same, the two last one `State`
     `read_ahead_producer`            ↔ `producerStep`, one step up to each await and each atomic
     `ReadAhead::fill_window`         ↔ `canFill` and the `filling` steps of `consumerStep`
     `ReadAhead::next_batch`          ↔ the `matching` steps
     `try_flatten`                    ↔ `tryFlatten`
   A stream that has failed is not read further: the writer stops at the first error. -/

namespace DuckLake.ReadAhead

open FirstError

variable {ε α : Type}

/-- The results a partition's stream has yet to give. -/
abbrev Reader (ε α : Type) := List (Except ε α)

/-- What is merged: the outcome of opening each partition, and how many are read ahead. -/
structure Input (ε α : Type) where
  partitions : List (Except ε (Reader ε α))
  readAhead : Nat
  size : α → Nat

/-- Where a producer stands in its loop. -/
inductive Producer (ε α : Type) where
  /-- Before it looks whether memory ran out. -/
  | starting (stream : Reader ε α)
  /-- Before it reserves the next batch. -/
  | reserving (stream : Reader ε α)
  | reading (stream : Reader ε α)
  | sending (item : Except ε α) (stream : Reader ε α)
  | returned (rest : Option (Reader ε α))

structure ReadAheadPartition (ε α : Type) where
  batches : List (Except ε α)
  producer : Producer ε α

inductive CurrentPartition (ε α : Type) where
  | readAhead (partition : ReadAheadPartition ε α)
  | inPlace (stream : Reader ε α)

/-- Where the consumer stands in `next_batch`. -/
inductive Consumer (α : Type) where
  /-- Between two calls, while the writer encodes. -/
  | waiting
  /-- In `fill_window`, with the batch that an in-place reader has just given. -/
  | filling (batch : Option α)
  | matching
  | ended

structure State (ε α : Type) where
  nextPartition : Nat
  window : List (ReadAheadPartition ε α)
  current : Option (CurrentPartition ε α)
  largestBatch : Nat
  exhausted : Bool
  consumer : Consumer α
  emitted : List (Except ε α)
  /-- The partitions opened, in order. -/
  opened : List Nat

def State.init : State ε α := ⟨0, [], none, 0, false, .waiting, [], []⟩

/-! ## The consumer -/

section Consumer
variable (inp : Input ε α) (s : State ε α)

/-- The condition of `fill_window`'s loop. -/
def canFill : Bool :=
  decide (s.window.length < inp.readAhead) && decide (s.nextPartition < inp.partitions.length) &&
    s.current.isSome && decide (0 < s.largestBatch) && !s.exhausted

/-- The stream ends with an error. -/
def State.fail (s : State ε α) (e : ε) : State ε α :=
  { s with consumer := .ended, emitted := s.emitted ++ [.error e] }

def State.emit (s : State ε α) (a : α) : State ε α :=
  { s with consumer := .waiting, emitted := s.emitted ++ [.ok a] }

/-- `execute` of the next partition: what to do with its stream, or the error. -/
def openNext (use : State ε α → Reader ε α → State ε α) : Option (State ε α) :=
  (inp.partitions[s.nextPartition]?).map fun outcome =>
    let s := { s with opened := s.opened ++ [s.nextPartition] }
    match outcome with
    | .error e => s.fail e
    | .ok stream => use { s with nextPartition := s.nextPartition + 1 } stream

def fillStep (batch : Option α) : Option (State ε α) :=
  if canFill inp s then
    openNext inp s fun s stream => { s with window := s.window ++ [⟨[], .starting stream⟩] }
  else match batch with
    | none => some { s with consumer := .matching }
    | some a => some (s.emit a)

def matchStep : Option (State ε α) :=
  match s.current with
  | none =>
    match s.window with
    | partition :: window =>
      some { s with window := window, current := some (.readAhead partition), consumer := .filling none }
    | [] =>
      if s.nextPartition < inp.partitions.length then
        openNext inp s fun s stream => { s with current := some (.inPlace stream), consumer := .filling none }
      else some { s with consumer := .ended }
  | some (.inPlace stream) =>
    match stream with
    | [] => some { s with current := none, consumer := .filling none }
    | .error e :: _ => some (s.fail e)
    | .ok a :: stream =>
      some { s with
        current := some (.inPlace stream)
        largestBatch := max s.largestBatch (inp.size a)
        consumer := .filling (some a) }
  | some (.readAhead partition) =>
    match partition.batches with
    | .error e :: _ => some (s.fail e)
    | .ok a :: batches => some ({ s with current := some (.readAhead { partition with batches := batches }) }.emit a)
    | [] =>
      match partition.producer with
      -- the channel is closed: the producer's reader, if it left one
      | .returned rest => some { s with current := rest.map .inPlace, consumer := .filling none }
      | _ => none

def consumerStep : Option (State ε α) :=
  match s.consumer with
  | .waiting => some { s with consumer := .filling none }
  | .filling batch => fillStep inp s batch
  | .matching => matchStep inp s
  | .ended => none

end Consumer

/-! ## The producers -/

/-- `READ_AHEAD_CHANNEL_BATCHES` -/
def channelBatches : Nat := 1

/-- A producer and what it shares with the others. -/
structure Shared (ε α : Type) where
  partition : ReadAheadPartition ε α
  largestBatch : Nat
  exhausted : Bool

/-- One step of a producer; `granted` is the pool's answer where it is asked. -/
def producerStep (size : α → Nat) (granted : Bool) (p : Shared ε α) : Option (Shared ε α) :=
  match p.partition.producer with
  | .starting stream =>
    if p.exhausted then some { p with partition := { p.partition with producer := .returned (some stream) } }
    else some { p with partition := { p.partition with producer := .reserving stream } }
  | .reserving stream =>
    if granted then some { p with partition := { p.partition with producer := .reading stream } }
    else some { p with exhausted := true, partition := { p.partition with producer := .returned (some stream) } }
  | .reading stream =>
    match stream with
    | [] => some { p with partition := { p.partition with producer := .returned none } }
    | .error e :: stream => some { p with partition := { p.partition with producer := .sending (.error e) stream } }
    | .ok a :: stream =>
      some { p with
        largestBatch := max p.largestBatch (size a)
        partition := { p.partition with producer := .sending (.ok a) stream } }
  | .sending item stream =>
    if p.partition.batches.length < channelBatches then
      some { p with partition :=
        ⟨p.partition.batches ++ [item], if item.isOk then .starting stream else .returned none⟩ }
    else none
  | .returned _ => none

/-- Who moves: the consumer, the producer of the current partition, or one of the window. -/
inductive Choice where
  | consumer
  | current (granted : Bool)
  | window (place : Nat) (granted : Bool)

def step (inp : Input ε α) (choice : Choice) (s : State ε α) : Option (State ε α) :=
  match choice with
  | .consumer => consumerStep inp s
  | .current granted =>
    match s.current with
    | some (.readAhead partition) =>
      (producerStep inp.size granted ⟨partition, s.largestBatch, s.exhausted⟩).map fun p =>
        { s with current := some (.readAhead p.partition), largestBatch := p.largestBatch, exhausted := p.exhausted }
    | _ => none
  | .window place granted =>
    (s.window[place]?).bind fun partition =>
      (producerStep inp.size granted ⟨partition, s.largestBatch, s.exhausted⟩).map fun p =>
        { s with window := s.window.set place p.partition, largestBatch := p.largestBatch, exhausted := p.exhausted }

/-- A run that follows the choices. -/
def run (inp : Input ε α) : List Choice → State ε α → Option (State ε α)
  | [], s => some s
  | choice :: choices, s => (step inp choice s).bind (run inp choices)

/-! ## The source order -/

/-- What a partition gives: its results, or the error of opening it. -/
def itemsOf : Except ε (Reader ε α) → List (Except ε α)
  | .error e => [.error e]
  | .ok stream => stream

/-- Partitions read strictly one after another. -/
def tryFlatten (partitions : List (Except ε (Reader ε α))) : List (Except ε α) := partitions.flatMap itemsOf

/-- The batches in partition order, up to the first error of the first partition that
fails. -/
def sourceOrder : List (Except ε (Reader ε α)) → List (Except ε α)
  | [] => []
  | p :: partitions => if hasError (itemsOf p) then upToError (itemsOf p) else itemsOf p ++ sourceOrder partitions

theorem upToError_of_ok {l : List (Except ε α)} (h : hasError l = false) : upToError l = l := by
  induction l with
  | nil => rfl
  | cons r l ih =>
    cases r with
    | error e => cases h
    | ok a => rw [upToError, ih h]

theorem upToError_tryFlatten (partitions : List (Except ε (Reader ε α))) :
    upToError (tryFlatten partitions) = sourceOrder partitions := by
  induction partitions with
  | nil => rfl
  | cons p partitions ih =>
    have hcons : tryFlatten (p :: partitions) = itemsOf p ++ tryFlatten partitions := rfl
    rw [hcons, upToError_append, ih, sourceOrder]
    split
    · rw [List.append_nil]
    · next hok => rw [upToError_of_ok (Bool.eq_false_iff.mpr hok)]

/-! ## What is left to emit -/

def Producer.rest : Producer ε α → List (Except ε α)
  | .starting stream | .reserving stream | .reading stream => stream
  | .sending item stream => item :: stream
  | .returned rest => rest.getD []

def ReadAheadPartition.rest (p : ReadAheadPartition ε α) : List (Except ε α) := p.batches ++ p.producer.rest

def CurrentPartition.rest : CurrentPartition ε α → List (Except ε α)
  | .readAhead partition => partition.rest
  | .inPlace stream => stream

/-- The batch the consumer holds. -/
def Consumer.held : Consumer α → List (Except ε α)
  | .filling (some a) => [.ok a]
  | _ => []

@[simp] theorem held_waiting : (Consumer.waiting : Consumer α).held = ([] : List (Except ε α)) := rfl

@[simp] theorem held_matching : (Consumer.matching : Consumer α).held = ([] : List (Except ε α)) := rfl

@[simp] theorem held_filling_none : (Consumer.filling none : Consumer α).held = ([] : List (Except ε α)) := rfl

@[simp] theorem held_filling_some (a : α) : (Consumer.filling (some a)).held = ([.ok a] : List (Except ε α)) := rfl

def currentRest (current : Option (CurrentPartition ε α)) : List (Except ε α) := (current.map (·.rest)).getD []

def State.rest (inp : Input ε α) (s : State ε α) : List (Except ε α) :=
  s.consumer.held ++ (currentRest s.current ++
    (s.window.flatMap (·.rest) ++ tryFlatten (inp.partitions.drop s.nextPartition)))

/-- Nothing is lost, repeated or out of place: what was emitted and what is left make up
the source order, and partitions were opened in order, each once. Once the stream has
ended, all of it was emitted, and unless it failed every partition was opened. -/
structure Delivers (inp : Input ε α) (s : State ε α) : Prop where
  source : s.consumer ≠ .ended → s.emitted ++ upToError (s.rest inp) = sourceOrder inp.partitions
  opened : s.consumer ≠ .ended → s.opened = List.range s.nextPartition
  nextLe : s.nextPartition ≤ inp.partitions.length
  all : s.consumer = .ended → s.emitted = sourceOrder inp.partitions
  opens : s.consumer = .ended → ∃ k, s.opened = List.range k ∧ k ≤ inp.partitions.length ∧
    (hasError (sourceOrder inp.partitions) = false → k = inp.partitions.length)

/-- A partition opened ahead of its turn opens. -/
def OpensAhead (inp : Input ε α) (s : State ε α) : Prop :=
  ∀ batch, s.consumer = .filling batch → canFill inp s = true →
    ∃ stream, inp.partitions[s.nextPartition]? = some (.ok stream)

theorem delivers_init (inp : Input ε α) : Delivers inp State.init where
  source := fun _ => upToError_tryFlatten inp.partitions
  opened := fun _ => rfl
  nextLe := Nat.zero_le _
  all := fun h => nomatch h
  opens := fun h => nomatch h

/-! ## One step of a producer -/

variable {inp : Input ε α} {s s' : State ε α} {granted : Bool}

theorem producerStep_alike {size : α → Nat} {p p' : Shared ε α}
    (h : producerStep size granted p = some p') : Alike p.partition.rest p'.partition.rest := by
  obtain ⟨⟨batches, producer⟩, largest, exhausted⟩ := p
  cases producer with
  | starting stream =>
    simp only [producerStep] at h
    split at h <;> cases h <;> exact .refl _
  | reserving stream =>
    simp only [producerStep] at h
    split at h <;> cases h <;> exact .refl _
  | reading stream =>
    cases stream with
    | nil =>
      cases h
      exact .refl _
    | cons item stream => cases item <;> cases h <;> exact .refl _
  | sending item stream =>
    simp only [producerStep] at h
    split at h
    · cases h
      cases item with
      | ok a =>
        intro rest
        simp [ReadAheadPartition.rest, Producer.rest, Except.isOk, Except.toBool]
      | error e =>
        -- what the reader still had after the error is never read
        have herror := (Alike.error e stream).append batches []
        simpa [ReadAheadPartition.rest, Producer.rest, Except.isOk, Except.toBool] using herror
    · cases h
  | returned rest => cases h

/-- A step that leaves the consumer and the unopened partitions alone and changes what
is left only past an error. -/
theorem Delivers.of_alike (hs : Delivers inp s) (hconsumer : s'.consumer = s.consumer)
    (hemitted : s'.emitted = s.emitted) (hopened : s'.opened = s.opened) (hnext : s'.nextPartition = s.nextPartition)
    (hrest : Alike (s.rest inp) (s'.rest inp)) : Delivers inp s' where
  source := by
    intro h
    rw [hconsumer] at h
    rw [hemitted, ← hrest.eq, hs.source h]
  opened := by
    intro h
    rw [hconsumer] at h
    rw [hopened, hnext, hs.opened h]
  nextLe := by
    rw [hnext]
    exact hs.nextLe
  all := by
    intro h
    rw [hconsumer] at h
    rw [hemitted, hs.all h]
  opens := by
    intro h
    rw [hconsumer] at h
    rw [hopened]
    exact hs.opens h

theorem delivers_current (hs : Delivers inp s) (h : step inp (.current granted) s = some s') : Delivers inp s' := by
  rw [step] at h
  split at h
  · next partition hcurrent =>
    obtain ⟨p, hp, rfl⟩ := Option.map_eq_some_iff.mp h
    refine hs.of_alike rfl rfl rfl rfl ?_
    have halike := (producerStep_alike hp).append s.consumer.held
      (s.window.flatMap (·.rest) ++ tryFlatten (inp.partitions.drop s.nextPartition))
    rw [State.rest, hcurrent]
    exact halike
  · cases h

theorem delivers_window {place : Nat} (hs : Delivers inp s)
    (h : step inp (.window place granted) s = some s') : Delivers inp s' := by
  rw [step, Option.bind_eq_some_iff] at h
  obtain ⟨partition, hplace, h⟩ := h
  obtain ⟨p, hp, rfl⟩ := Option.map_eq_some_iff.mp h
  obtain ⟨before, after, hwindow, hset⟩ := Lists.exists_set hplace
  refine hs.of_alike rfl rfl rfl rfl ?_
  have halike := (producerStep_alike hp).append
    (s.consumer.held ++ (currentRest s.current ++ before.flatMap (·.rest)))
    (after.flatMap (·.rest) ++ tryFlatten (inp.partitions.drop s.nextPartition))
  rw [State.rest, State.rest, hset, hwindow]
  simpa [List.flatMap_append, List.append_assoc] using halike

/-! ## One step of the consumer -/

section Consumer
variable {inp : Input ε α} {s s' : State ε α}

theorem Delivers.running (hs : Delivers inp s) (hran : s.consumer ≠ .ended) (hran' : s'.consumer ≠ .ended)
    (hsource : s'.emitted ++ upToError (s'.rest inp) = s.emitted ++ upToError (s.rest inp))
    (hopened : s'.opened = List.range s'.nextPartition) (hnext : s'.nextPartition ≤ inp.partitions.length) :
    Delivers inp s' where
  source := fun _ => hsource.trans (hs.source hran)
  opened := fun _ => hopened
  nextLe := hnext
  all := fun h => absurd h hran'
  opens := fun h => absurd h hran'

theorem Delivers.fail (hs : Delivers inp s) (hran : s.consumer ≠ .ended) {e : ε} {rest : List (Except ε α)}
    (hrest : s.rest inp = .error e :: rest) {k : Nat} (hk : k ≤ inp.partitions.length) :
    Delivers inp { s with opened := List.range k, consumer := .ended, emitted := s.emitted ++ [.error e] } := by
  have hsource : s.emitted ++ [.error e] = sourceOrder inp.partitions := by
    rw [← hs.source hran, hrest, upToError]
  refine ⟨fun h => absurd rfl h, fun h => absurd rfl h, hs.nextLe, fun _ => hsource, fun _ => ⟨k, rfl, hk, ?_⟩⟩
  intro hno
  rw [← hsource, hasError, List.any_append, Bool.or_eq_false_iff] at hno
  cases hno.2

theorem openNext_cases {use : State ε α → Reader ε α → State ε α} (h : openNext inp s use = some s') :
    (∃ stream, inp.partitions[s.nextPartition]? = some (.ok stream) ∧
      s' = use { s with opened := s.opened ++ [s.nextPartition], nextPartition := s.nextPartition + 1 } stream) ∨
    ∃ e, inp.partitions[s.nextPartition]? = some (.error e) ∧
      s' = { s with
        opened := s.opened ++ [s.nextPartition], consumer := .ended, emitted := s.emitted ++ [.error e] } := by
  obtain ⟨outcome, houtcome, rfl⟩ := Option.map_eq_some_iff.mp h
  cases outcome with
  | ok stream => exact .inl ⟨stream, houtcome, rfl⟩
  | error e => exact .inr ⟨e, houtcome, rfl⟩

theorem tryFlatten_drop {i : Nat} {outcome : Except ε (Reader ε α)} (h : inp.partitions[i]? = some outcome) :
    i < inp.partitions.length ∧
      tryFlatten (inp.partitions.drop i) = itemsOf outcome ++ tryFlatten (inp.partitions.drop (i + 1)) := by
  obtain ⟨hi, hget⟩ := List.getElem?_eq_some_iff.mp h
  refine ⟨hi, ?_⟩
  rw [List.drop_eq_getElem_cons hi, hget]
  rfl

theorem delivers_fill {batch : Option α} (hs : Delivers inp s) (hopens : OpensAhead inp s)
    (hconsumer : s.consumer = .filling batch) (h : fillStep inp s batch = some s') : Delivers inp s' := by
  have hran : s.consumer ≠ .ended := by
    rw [hconsumer]
    exact fun h => nomatch h
  unfold fillStep at h
  split at h
  · next hfill =>
    obtain ⟨stream, hstream⟩ := hopens batch hconsumer hfill
    obtain ⟨hlt, hdrop⟩ := tryFlatten_drop hstream
    obtain ⟨stream', hstream', rfl⟩ | ⟨e, he, -⟩ := openNext_cases h
    · obtain rfl : stream = stream' := by simpa using hstream.symm.trans hstream'
      refine hs.running hran hran ?_ ?_ hlt
      · simp [State.rest, hdrop, itemsOf, ReadAheadPartition.rest, Producer.rest]
      · rw [hs.opened hran, List.range_succ]
    · rw [hstream] at he
      cases he
  · split at h
    · cases h
      refine hs.running hran (fun h => nomatch h) ?_ (hs.opened hran) hs.nextLe
      rw [State.rest, State.rest, hconsumer]
      rfl
    · next a =>
      cases h
      refine hs.running hran (fun h => nomatch h) ?_ (hs.opened hran) hs.nextLe
      rw [State.rest, State.rest, hconsumer, State.emit, List.append_assoc]
      rfl

theorem delivers_match (hs : Delivers inp s) (hconsumer : s.consumer = .matching)
    (h : matchStep inp s = some s') : Delivers inp s' := by
  have hran : s.consumer ≠ .ended := by
    rw [hconsumer]
    rintro ⟨⟩
  have hheld : s.consumer.held = ([] : List (Except ε α)) := by rw [hconsumer]; rfl
  have hopened := hs.opened hran
  unfold matchStep at h
  split at h
  · next hcurrent =>
    split at h
    · next partition window hwindow =>
      cases h
      refine hs.running hran (by rintro ⟨⟩) ?_ hopened hs.nextLe
      simp [State.rest, hheld, hcurrent, hwindow, currentRest, CurrentPartition.rest]
    · next hwindow =>
      split at h
      · obtain ⟨stream, hstream, rfl⟩ | ⟨e, he, rfl⟩ := openNext_cases h
        · obtain ⟨hlt, hdrop⟩ := tryFlatten_drop hstream
          refine hs.running hran (by rintro ⟨⟩) ?_ ?_ hlt
          · simp [State.rest, hheld, hcurrent, hwindow, hdrop, itemsOf, currentRest, CurrentPartition.rest]
          · rw [hopened, List.range_succ]
        · obtain ⟨hlt, hdrop⟩ := tryFlatten_drop he
          have hrest : s.rest inp = .error e :: tryFlatten (inp.partitions.drop (s.nextPartition + 1)) := by
            simp [State.rest, hheld, hcurrent, hwindow, hdrop, itemsOf, currentRest]
          rw [hopened, ← List.range_succ]
          exact hs.fail hran hrest hlt
      · next hall =>
        cases h
        have hdrop : inp.partitions.drop s.nextPartition = [] := List.drop_eq_nil_of_le (Nat.not_lt.mp hall)
        have hrest : s.rest inp = [] := by
          simp [State.rest, hheld, hcurrent, hwindow, hdrop, tryFlatten, currentRest]
        have hsource := hs.source hran
        rw [hrest] at hsource
        refine ⟨fun h => absurd rfl h, fun h => absurd rfl h, hs.nextLe, fun _ => ?_, fun _ =>
          ⟨s.nextPartition, hopened, hs.nextLe, fun _ => Nat.le_antisymm hs.nextLe (Nat.not_lt.mp hall)⟩⟩
        rw [← hsource]
        exact (List.append_nil _).symm
  · next stream hcurrent =>
    split at h
    · cases h
      refine hs.running hran (by rintro ⟨⟩) ?_ hopened hs.nextLe
      simp [State.rest, hheld, hcurrent, currentRest, CurrentPartition.rest]
    · next e stream =>
      cases h
      have hfail := hs.fail hran (e := e)
        (by simp [State.rest, hheld, hcurrent, currentRest, CurrentPartition.rest]; rfl) hs.nextLe
      rw [← hopened] at hfail
      exact hfail
    · next a stream =>
      cases h
      refine hs.running hran (by rintro ⟨⟩) ?_ hopened hs.nextLe
      simp [State.rest, hheld, hcurrent, currentRest, CurrentPartition.rest]
  · next partition hcurrent =>
    split at h
    · next e batches hbatches =>
      cases h
      have hfail := hs.fail hran (e := e)
        (by simp [State.rest, hheld, hcurrent, currentRest, CurrentPartition.rest, ReadAheadPartition.rest,
          hbatches]; rfl) hs.nextLe
      rw [← hopened] at hfail
      exact hfail
    · next a batches hbatches =>
      cases h
      refine hs.running hran (by rintro ⟨⟩) ?_ hopened hs.nextLe
      simp [State.rest, State.emit, hheld, hcurrent, currentRest, CurrentPartition.rest, ReadAheadPartition.rest,
        hbatches, upToError]
    · next hbatches =>
      split at h
      · next rest hproducer =>
        cases h
        refine hs.running hran (by rintro ⟨⟩) ?_ hopened hs.nextLe
        cases rest <;> simp [State.rest, hheld, hcurrent, currentRest, CurrentPartition.rest, ReadAheadPartition.rest,
          hbatches, hproducer, Producer.rest]
      · cases h

/-- Every move keeps what was emitted and what is left together. -/
theorem delivers_step {choice : Choice} (hs : Delivers inp s) (hopens : OpensAhead inp s)
    (h : step inp choice s = some s') : Delivers inp s' := by
  cases choice with
  | consumer =>
    have h : consumerStep inp s = some s' := h
    unfold consumerStep at h
    split at h
    · next hconsumer =>
      cases h
      refine hs.running (by rw [hconsumer]; exact fun h => nomatch h) (fun h => nomatch h) ?_
        (hs.opened (by rw [hconsumer]; exact fun h => nomatch h)) hs.nextLe
      simp [State.rest, hconsumer]
    · next batch hconsumer => exact delivers_fill hs hopens hconsumer h
    · next hconsumer => exact delivers_match hs hconsumer h
    · cases h
  | current granted => exact delivers_current hs h
  | window place granted => exact delivers_window hs h

end Consumer

/-! ## Every run ends

Each move uses up some of the work that is left; a batch costs more the further it is
from the writer. -/

def Producer.work : Producer ε α → Nat
  | .starting stream => 10 * stream.length + 9
  | .reserving stream => 10 * stream.length + 8
  | .reading stream => 10 * stream.length + 7
  | .sending _ stream => 10 * stream.length + 16
  | .returned none => 4
  | .returned (some stream) => 10 * stream.length + 5

def ReadAheadPartition.work (p : ReadAheadPartition ε α) : Nat := 5 * p.batches.length + p.producer.work

def currentWork : Option (CurrentPartition ε α) → Nat
  | none => 0
  | some (.readAhead partition) => partition.work
  | some (.inPlace stream) => 10 * stream.length + 3

def Consumer.work : Consumer α → Nat
  | .waiting => 3
  | .filling none => 2
  | .filling (some _) => 5
  | .matching => 1
  | .ended => 0

def unopenedWork (partitions : List (Except ε (Reader ε α))) : Nat :=
  (partitions.map fun p => 10 * (itemsOf p).length + 20).sum

def State.work (inp : Input ε α) (s : State ε α) : Nat :=
  s.consumer.work + currentWork s.current + (s.window.map (·.work + 3)).sum +
    unopenedWork (inp.partitions.drop s.nextPartition)

theorem producerStep_work {size : α → Nat} {p p' : Shared ε α}
    (h : producerStep size granted p = some p') : p'.partition.work < p.partition.work := by
  obtain ⟨⟨batches, producer⟩, largest, exhausted⟩ := p
  cases producer with
  | starting stream =>
    simp only [producerStep] at h
    split at h <;> cases h <;> simp [ReadAheadPartition.work, Producer.work]
  | reserving stream =>
    simp only [producerStep] at h
    split at h <;> cases h <;> simp [ReadAheadPartition.work, Producer.work]
  | reading stream =>
    cases stream with
    | nil =>
      cases h
      simp [ReadAheadPartition.work, Producer.work]
    | cons item stream =>
      cases item <;> cases h <;> simp only [ReadAheadPartition.work, Producer.work, List.length_cons] <;> omega
  | sending item stream =>
    simp only [producerStep] at h
    split at h
    · cases h
      simp only [ReadAheadPartition.work, List.length_append, List.length_singleton]
      split <;> simp only [Producer.work] <;> omega
    · cases h
  | returned rest => cases h

theorem unopenedWork_drop {i : Nat} {outcome : Except ε (Reader ε α)}
    (h : inp.partitions[i]? = some outcome) : unopenedWork (inp.partitions.drop i) =
      10 * (itemsOf outcome).length + 20 + unopenedWork (inp.partitions.drop (i + 1)) := by
  obtain ⟨hi, hget⟩ := List.getElem?_eq_some_iff.mp h
  rw [List.drop_eq_getElem_cons hi, hget]
  rfl

section Work
variable {inp : Input ε α} {s s' : State ε α}

theorem fill_work {batch : Option α} (hconsumer : s.consumer = .filling batch) (h : fillStep inp s batch = some s') :
    s'.work inp < s.work inp := by
  unfold fillStep at h
  split at h
  · obtain ⟨stream, hstream, rfl⟩ | ⟨e, -, rfl⟩ := openNext_cases h
    · have hdrop := unopenedWork_drop hstream
      simp only [State.work, hdrop, itemsOf, List.map_append, List.sum_append, List.map_singleton, List.sum_singleton,
        ReadAheadPartition.work, Producer.work, List.length_nil]
      omega
    · have hpos : 0 < s.consumer.work := by
        rw [hconsumer]
        cases batch <;> simp [Consumer.work]
      have hended : (Consumer.ended : Consumer α).work = 0 := rfl
      simp only [State.work, hended]
      omega
  · split at h <;> cases h <;> simp only [State.work, State.emit, hconsumer, Consumer.work] <;> omega

theorem match_work (hconsumer : s.consumer = .matching) (h : matchStep inp s = some s') : s'.work inp < s.work inp := by
  unfold matchStep at h
  split at h
  · next hcurrent =>
    split at h
    · next partition window hwindow =>
      cases h
      simp only [State.work, hconsumer, hcurrent, hwindow, Consumer.work, currentWork, List.map_cons, List.sum_cons]
      omega
    · next hwindow =>
      split at h
      · obtain ⟨stream, hstream, rfl⟩ | ⟨e, -, rfl⟩ := openNext_cases h
        · have hdrop := unopenedWork_drop hstream
          simp only [State.work, hconsumer, hcurrent, hdrop, itemsOf, Consumer.work, currentWork]
          omega
        · simp only [State.work, hconsumer, Consumer.work]
          omega
      · cases h
        simp only [State.work, hconsumer, Consumer.work]
        omega
  · next stream hcurrent =>
    split at h <;> cases h <;>
      simp only [State.work, State.fail, hconsumer, hcurrent, Consumer.work, currentWork, List.length_cons,
        List.length_nil] <;>
      omega
  · next partition hcurrent =>
    split at h
    · cases h
      simp only [State.work, State.fail, hconsumer, Consumer.work]
      omega
    · next a batches hbatches =>
      cases h
      simp only [State.work, State.emit, hconsumer, hcurrent, Consumer.work, currentWork, ReadAheadPartition.work,
        hbatches, List.length_cons]
      omega
    · next hbatches =>
      split at h
      · next rest hproducer =>
        cases h
        cases rest <;>
          simp only [State.work, hconsumer, hcurrent, Consumer.work, currentWork, ReadAheadPartition.work, hbatches,
            hproducer, Producer.work, Option.map_none, Option.map_some, List.length_nil] <;>
          omega
      · cases h

theorem work_step {choice : Choice} (h : step inp choice s = some s') : s'.work inp < s.work inp := by
  cases choice with
  | consumer =>
    have h : consumerStep inp s = some s' := h
    unfold consumerStep at h
    split at h
    · next hconsumer =>
      cases h
      simp only [State.work, hconsumer, Consumer.work]
      omega
    · next batch hconsumer => exact fill_work hconsumer h
    · next hconsumer => exact match_work hconsumer h
    · cases h
  | current granted =>
    rw [step] at h
    split at h
    · next partition hcurrent =>
      obtain ⟨p, hp, rfl⟩ := Option.map_eq_some_iff.mp h
      have hlt : p.partition.work < partition.work := producerStep_work hp
      simp only [State.work, hcurrent, currentWork]
      omega
    · cases h
  | window place granted =>
    rw [step, Option.bind_eq_some_iff] at h
    obtain ⟨partition, hplace, h⟩ := h
    obtain ⟨p, hp, rfl⟩ := Option.map_eq_some_iff.mp h
    obtain ⟨before, after, hwindow, hset⟩ := Lists.exists_set hplace
    have hlt : p.partition.work < partition.work := producerStep_work hp
    simp only [State.work, hset]
    rw [hwindow]
    simp only [List.map_append, List.map_cons, List.sum_append, List.sum_cons]
    omega

theorem exists_openNext {use : State ε α → Reader ε α → State ε α} (h : s.nextPartition < inp.partitions.length) :
    ∃ s', openNext inp s use = some s' := by
  unfold openNext
  rw [List.getElem?_eq_getElem h]
  exact ⟨_, rfl⟩

theorem exists_fill (batch : Option α) : ∃ s', fillStep inp s batch = some s' := by
  unfold fillStep
  split
  · next hfill =>
    simp only [canFill, Bool.and_eq_true, decide_eq_true_eq] at hfill
    exact exists_openNext hfill.1.1.1.2
  · cases batch with
    | none => exact ⟨_, rfl⟩
    | some a => exact ⟨_, rfl⟩

theorem exists_producerStep {size : α → Nat} {partition : ReadAheadPartition ε α} {largest : Nat} {exhausted : Bool}
    (hbatches : partition.batches = []) (hproducer : ∀ rest, partition.producer ≠ .returned rest) :
    ∃ p, producerStep size true ⟨partition, largest, exhausted⟩ = some p := by
  obtain ⟨batches, producer⟩ := partition
  obtain rfl : batches = [] := hbatches
  cases producer with
  | starting stream => cases exhausted <;> exact ⟨_, rfl⟩
  | reserving stream => exact ⟨_, rfl⟩
  | reading stream =>
    cases stream with
    | nil => exact ⟨_, rfl⟩
    | cons item stream => cases item <;> exact ⟨_, rfl⟩
  | sending item stream => exact ⟨_, rfl⟩
  | returned rest => exact absurd rfl (hproducer rest)

/-- A stream that has not ended is never stuck: the consumer moves, or waits for a
producer that does. -/
theorem exists_step (h : s.consumer ≠ .ended) : ∃ choice s', step inp choice s = some s' := by
  cases hconsumer : s.consumer with
  | waiting => exact ⟨.consumer, _, by simp only [step, consumerStep, hconsumer]; rfl⟩
  | ended => exact absurd hconsumer h
  | filling batch =>
    obtain ⟨s', hs'⟩ : ∃ s', fillStep inp s batch = some s' := exists_fill batch
    exact ⟨.consumer, s', by simp only [step, consumerStep, hconsumer, hs']⟩
  | matching =>
    have hstep : step inp .consumer s = matchStep inp s := by simp only [step, consumerStep, hconsumer]
    cases hcurrent : s.current with
    | none =>
      refine ⟨.consumer, ?_⟩
      rw [hstep, matchStep, hcurrent]
      cases hwindow : s.window with
      | cons partition window => exact ⟨_, rfl⟩
      | nil =>
        dsimp only
        split
        · next hlt => exact exists_openNext hlt
        · exact ⟨_, rfl⟩
    | some current =>
      cases current with
      | inPlace stream =>
        refine ⟨.consumer, ?_⟩
        rw [hstep, matchStep, hcurrent]
        cases stream with
        | nil => exact ⟨_, rfl⟩
        | cons item stream => cases item <;> exact ⟨_, rfl⟩
      | readAhead partition =>
        cases hbatches : partition.batches with
        | cons item batches =>
          refine ⟨.consumer, ?_⟩
          rw [hstep, matchStep, hcurrent]
          cases item <;> simp only [hbatches] <;> exact ⟨_, rfl⟩
        | nil =>
          by_cases hproducer : ∃ rest, partition.producer = .returned rest
          · obtain ⟨rest, hproducer⟩ := hproducer
            refine ⟨.consumer, ?_⟩
            rw [hstep, matchStep, hcurrent]
            simp only [hbatches, hproducer]
            exact ⟨_, rfl⟩
          · -- the channel is empty, so its producer can go on
            obtain ⟨p, hp⟩ : ∃ p, producerStep inp.size true ⟨partition, s.largestBatch, s.exhausted⟩ = some p :=
              exists_producerStep hbatches (fun rest hrest => hproducer ⟨rest, hrest⟩)
            exact ⟨.current true, _, by simp only [step, hcurrent, hp, Option.map_some]; rfl⟩

end Work

/-! ## Every run delivers the source order -/

/-- The states of the runs in which every partition that is opened ahead of its turn
opens. -/
def Reaches (inp : Input ε α) : State ε α → Prop :=
  Relation.ReflTransGen (fun s s' => OpensAhead inp s ∧ ∃ choice, step inp choice s = some s') State.init

theorem delivers_of_reaches {s : State ε α} (h : Reaches inp s) : Delivers inp s := by
  induction h with
  | refl => exact delivers_init inp
  | tail _ hstep ih =>
    obtain ⟨hopens, choice, hstep⟩ := hstep
    exact delivers_step ih hopens hstep

theorem Delivers.isPrefix {s : State ε α} (hs : Delivers inp s) :
    s.emitted <+: sourceOrder inp.partitions := by
  by_cases hended : s.consumer = .ended
  · exact hs.all hended ▸ List.prefix_refl _
  · rw [← hs.source hended]
    exact List.prefix_append _ _

theorem Delivers.exists_range {s : State ε α} (hs : Delivers inp s) :
    ∃ k ≤ inp.partitions.length, s.opened = List.range k := by
  by_cases hended : s.consumer = .ended
  · obtain ⟨k, hk, hle, -⟩ := hs.opens hended
    exact ⟨k, hle, hk⟩
  · exact ⟨s.nextPartition, hs.nextLe, hs.opened hended⟩

/-- No schedule keeps the stream running for ever. -/
theorem no_endless_run (inp : Input ε α) (states : Nat → State ε α) :
    ¬ ∀ n, ∃ choice, step inp choice (states n) = some (states (n + 1)) := by
  intro hsteps
  have hwork : ∀ n, (states n).work inp + n ≤ (states 0).work inp := by
    intro n
    induction n with
    | zero => exact Nat.le_refl _
    | succ n ih =>
      obtain ⟨choice, hstep⟩ := hsteps n
      have hlt := work_step hstep
      omega
  have hlast := hwork ((states 0).work inp + 1)
  omega

/-- Read one after another or ahead, under every schedule and every refusal of memory,
the partitions come out in source order, each batch once, up to the first error; none is
opened twice or skipped, and the stream ends. -/
theorem source_ordered_output_delivers (inp : Input ε α) :
    upToError (tryFlatten inp.partitions) = sourceOrder inp.partitions ∧
    (∀ s, Reaches inp s →
      s.emitted <+: sourceOrder inp.partitions ∧
      (∃ k ≤ inp.partitions.length, s.opened = List.range k) ∧
      (s.consumer ≠ .ended → ∃ choice s', step inp choice s = some s') ∧
      (s.consumer = .ended → s.emitted = sourceOrder inp.partitions ∧
        (hasError (sourceOrder inp.partitions) = false → s.opened = List.range inp.partitions.length))) ∧
    ∀ states : Nat → State ε α, ¬ ∀ n, ∃ choice, step inp choice (states n) = some (states (n + 1)) := by
  refine ⟨upToError_tryFlatten _, ?_, no_endless_run inp⟩
  intro s hreaches
  have hs := delivers_of_reaches hreaches
  refine ⟨hs.isPrefix, hs.exists_range, exists_step, ?_⟩
  intro hended
  refine ⟨hs.all hended, ?_⟩
  intro hno
  obtain ⟨k, hk, -, hall⟩ := hs.opens hended
  rw [hk, hall hno]

/-! ## A partition that does not open -/

def failing : Input Unit Nat := ⟨[.ok [.ok 1, .ok 2], .error ()], 1, id⟩

/-- The second partition is opened while the first is still read, and its error takes
the place of the batches before it. -/
theorem open_error_overtakes :
    (run failing (List.replicate 6 .consumer) State.init).map (·.emitted) = some [.error ()] ∧
      sourceOrder failing.partitions = [.ok 1, .ok 2, .error ()] := ⟨rfl, rfl⟩

theorem reaches_of_run (hopen : ∀ p ∈ inp.partitions, ∃ stream, p = .ok stream)
    {choices : List Choice} (hs : Reaches inp s) (h : run inp choices s = some s') :
    Reaches inp s' := by
  induction choices generalizing s with
  | nil =>
    cases h
    exact hs
  | cons choice choices ih =>
    obtain ⟨next, hnext, h⟩ := Option.bind_eq_some_iff.mp h
    refine ih (hs.tail ⟨?_, choice, hnext⟩) h
    intro batch _ hfill
    simp only [canFill, Bool.and_eq_true, decide_eq_true_eq] at hfill
    have hlt := hfill.1.1.1.2
    obtain ⟨stream, hstream⟩ := hopen _ (List.getElem_mem hlt)
    exact ⟨stream, by rw [List.getElem?_eq_getElem hlt, hstream]⟩

/-- The second partition is read ahead until memory runs out with a batch in its
channel. -/
def refused : Input Unit Nat := ⟨[.ok [.ok 1, .ok 2], .ok [.ok 3, .ok 4, .error ()]], 1, id⟩

def refusal : List Choice :=
  List.replicate 8 .consumer ++
    [.window 0 true, .window 0 true, .window 0 true, .window 0 true, .window 0 true, .window 0 false] ++
      List.replicate 19 .consumer

theorem refused_delivers : ∃ s, run refused refusal State.init = some s ∧ Reaches refused s ∧ s.exhausted = true ∧
    s.consumer = .ended ∧ s.emitted = sourceOrder refused.partitions := by
  have hopen : ∀ p ∈ refused.partitions, ∃ stream, p = .ok stream := by simp [refused]
  obtain ⟨s, hrun, hexhausted, hended⟩ : ∃ s, run refused refusal State.init = some s ∧ s.exhausted = true ∧
      s.consumer = .ended := ⟨_, rfl, rfl, rfl⟩
  have hreaches : Reaches refused s := reaches_of_run hopen .refl hrun
  exact ⟨s, hrun, hreaches, hexhausted, hended,
    (((source_ordered_output_delivers refused).2.1 s hreaches).2.2.2 hended).1⟩

end DuckLake.ReadAhead
