/-
Events, and frames that panic.

What a call emits goes to the log of its frame, and its cancellation to a second log.  When a frame
panics, its cancellations go to the first log, in reverse order, but for the events of the
bootloader.  Then both logs of the frame are those of the one below.  In the end an entry is dropped
if there is another one with its timestamp.

* `flatten_surviving` — what is returned is what survives, also from a later point on.
-/
import ViaCore.Outcome
import ViaCore.Bytes
import ViaCore.Query

namespace EventSink

structure LogQuery where
  timestamp : ℕ
  txNumberInBlock : UInt16
  auxByte : UInt8
  shardId : UInt8
  address : EVMAddress
  key : BitVec 256
  writtenValue : BitVec 256
  rwFlag : Bool
  rollback : Bool
  isService : Bool

structure EventMessage where
  shardId : UInt8
  isFirst : Bool
  txNumberInBlock : UInt16
  address : EVMAddress
  key : BitVec 256
  value : BitVec 256
  deriving DecidableEq

structure SystemParams where
  bootloaderFormalAddress : EVMAddress
  eventAuxByte : UInt8
  l1MessageAuxByte : UInt8
  timeDeltaPerCycle : ℕ

/-- The start of the last frame is the first of the list. -/
structure FramedStack (α : Type) where
  data : List α
  frameStartIndices : List ℕ

namespace FramedStack

variable {α : Type} (self : FramedStack α)

def currentFrame : Outcome Unit (List α) :=
  match self.frameStartIndices with
  | [] => .panic
  | start :: _ => if start ≤ self.data.length then .ok (self.data.drop start) else .panic

def extendFrame (items : List α) : FramedStack α := { self with data := self.data ++ items }

def clearFrame : Outcome Unit (FramedStack α) :=
  match self.frameStartIndices with
  | [] => .panic
  | start :: _ => .ok { self with data := self.data.take start }

def pushFrame : FramedStack α :=
  { self with frameStartIndices := self.data.length :: self.frameStartIndices }

def mergeFrame : Outcome Unit (FramedStack α) :=
  match self.frameStartIndices with
  | [] => .panic
  | _ :: frames => .ok { self with frameStartIndices := frames }

end FramedStack

/-- Of the history of changes, to which every call adds in both logs, only the last timestamp is
read here. -/
structure InMemoryEventSink where
  forward : FramedStack LogQuery
  rollback : FramedStack LogQuery
  lastRecordedTimestamp : ℕ

inductive Operation where
  | startFrame (timestamp : ℕ)
  | addPartialQuery (query : LogQuery)
  | finishFrame (panicked : Bool) (timestamp : ℕ)

def Operation.timestamp : Operation → ℕ
  | .startFrame timestamp => timestamp
  | .addPartialQuery query => query.timestamp
  | .finishFrame _ timestamp => timestamp

variable (P : SystemParams)

namespace LogQuery

def message (query : LogQuery) : EventMessage :=
  ⟨query.shardId, query.isService, query.txNumberInBlock, query.address, query.key,
    query.writtenValue⟩

def isEvent (query : LogQuery) : Bool := query.auxByte = P.eventAuxByte

def isReverted (query : LogQuery) : Bool :=
  query.address ≠ P.bootloaderFormalAddress ∨ query.auxByte ≠ P.eventAuxByte

def Valid (query : LogQuery) : Prop :=
  query.rwFlag ∧ (query.auxByte = P.eventAuxByte ∨ query.auxByte = P.l1MessageAuxByte) ∧
    !query.rollback
deriving Decidable

def cancellation (query : LogQuery) : LogQuery := { query with rollback := true }

end LogQuery

namespace InMemoryEventSink

variable (self : InMemoryEventSink)

def new : InMemoryEventSink := ⟨⟨[], [0]⟩, ⟨[], [0]⟩, 0⟩

def normalizeTimestamp (timestamp : ℕ) : ℕ := timestamp - timestamp % P.timeDeltaPerCycle

def applyHistoricRecord (timestamp : ℕ) : Outcome Unit InMemoryEventSink :=
  let timestamp := normalizeTimestamp P timestamp
  -- "Timestamps are not monotonic"
  if self.lastRecordedTimestamp ≤ timestamp then
    .ok { self with lastRecordedTimestamp := timestamp }
  else .panic

def addPartialQuery (query : LogQuery) : Outcome Unit InMemoryEventSink :=
  if query.Valid P then
    .ok { self with
      forward := self.forward.extendFrame [query]
      rollback := self.rollback.extendFrame [query.cancellation] }
  else .panic

def startFrame : InMemoryEventSink :=
  { self with forward := self.forward.pushFrame, rollback := self.rollback.pushFrame }

def moveRollbackToForward (filter : LogQuery → Bool) : Outcome Unit InMemoryEventSink := do
  let frame ← self.rollback.currentFrame
  let rollback ← self.rollback.clearFrame
  .ok { self with forward := self.forward.extendFrame (frame.reverse.filter filter), rollback }

def mergeFrame : Outcome Unit InMemoryEventSink := do
  let forward ← self.forward.mergeFrame
  let rollback ← self.rollback.mergeFrame
  .ok { self with forward, rollback }

def finishFrame (panicked : Bool) : Outcome Unit InMemoryEventSink :=
  if panicked then do (← self.moveRollbackToForward (LogQuery.isReverted P)).mergeFrame
  else self.mergeFrame

def handle : Operation → Outcome Unit InMemoryEventSink
  | .startFrame _ => .ok self.startFrame
  | .addPartialQuery query => self.addPartialQuery P query
  | .finishFrame panicked _ => self.finishFrame P panicked

def apply (op : Operation) : Outcome Unit InMemoryEventSink := do
  (← self.applyHistoricRecord P op.timestamp).handle P op

def run (ops : List Operation) : Outcome Unit InMemoryEventSink := ops.foldlM (apply P) self

/-- One entry of the log, with the map from timestamps to entries as a list. -/
def cancel (tmp : List LogQuery) (el : LogQuery) : Outcome Unit (List LogQuery) :=
  if tmp.any fun query => query.timestamp = el.timestamp then
    if el.rollback then .ok (tmp.filter fun query => query.timestamp ≠ el.timestamp) else .panic
  else if el.rollback then .panic
  else .ok (tmp ++ [el])

def byKind (els : List LogQuery) : List EventMessage × List EventMessage :=
  ((els.filter (LogQuery.isEvent P)).map LogQuery.message,
    (els.filter fun el => !el.isEvent P).map LogQuery.message)

def eventsAndL1MessagesFromHistory (history : List LogQuery) :
    Outcome Unit (List EventMessage × List EventMessage) := do
  let tmp ← history.foldlM cancel []
  let keys := (tmp.map LogQuery.timestamp).mergeSort
  let els ← keys.mapM fun k => Outcome.unwrap (tmp.find? fun query => query.timestamp = k)
  .ok (byKind P els)

def flatten : Outcome Unit (List EventMessage × List EventMessage) :=
  -- "there must exist an initial keeper frame"
  if self.forward.frameStartIndices.length = 1 then do
    eventsAndL1MessagesFromHistory P (← self.forward.currentFrame)
  else .panic

/-- The entries after the last one that is older. -/
def logQueriesAfterTimestamp (fromTimestamp : ℕ) : Outcome Unit (List LogQuery) := do
  let events ← self.forward.currentFrame
  .ok (events.rtakeWhile fun e => ¬ e.timestamp < fromTimestamp)

def getEventsAndL2L1LogsAfterTimestamp (fromTimestamp : ℕ) :
    Outcome Unit (List EventMessage × List EventMessage) := do
  eventsAndL1MessagesFromHistory P (← self.logQueriesAfterTimestamp fromTimestamp)

end InMemoryEventSink

/-- A well-nested sequence of calls. -/
inductive Trace where
  | done
  | emit (query : LogQuery) (rest : Trace)
  | frame (start : ℕ) (body : Trace) (panicked : Bool) (finish : ℕ) (rest : Trace)

namespace Trace

def ops : Trace → List Operation
  | done => []
  | emit query rest => .addPartialQuery query :: rest.ops
  | frame start body panicked finish rest =>
    .startFrame start :: body.ops ++ .finishFrame panicked finish :: rest.ops

def queries : Trace → List LogQuery
  | done => []
  | emit query rest => query :: rest.queries
  | frame _ body _ _ rest => body.queries ++ rest.queries

/-- What is emitted in frames that do not panic, and all events of the bootloader. -/
def surviving : Trace → List LogQuery
  | done => []
  | emit query rest => query :: rest.surviving
  | frame _ body true _ rest =>
    body.surviving.filter (fun query => !query.isReverted P) ++ rest.surviving
  | frame _ body false _ rest => body.surviving ++ rest.surviving

def append : Trace → Trace → Trace
  | done, after => after
  | emit query rest, after => emit query (rest.append after)
  | frame start body panicked finish rest, after =>
    frame start body panicked finish (rest.append after)

def rollback : Trace → List LogQuery
  | done => []
  | emit query rest => query.cancellation :: rest.rollback
  | frame _ _ true _ rest => rest.rollback
  | frame _ body false _ rest => body.rollback ++ rest.rollback

def forward : Trace → List LogQuery
  | done => []
  | emit query rest => query :: rest.forward
  | frame _ body true _ rest =>
    body.forward ++ body.rollback.reverse.filter (LogQuery.isReverted P) ++ rest.forward
  | frame _ body false _ rest => body.forward ++ rest.forward

end Trace

open InMemoryEventSink

variable {P} {trace : Trace}

theorem normalizeTimestamp_mono {a b : ℕ} (h : a ≤ b) :
    normalizeTimestamp P a ≤ normalizeTimestamp P b := by
  have hdiv : ∀ n, normalizeTimestamp P n = P.timeDeltaPerCycle * (n / P.timeDeltaPerCycle) :=
    fun n => (Nat.mul_div_self_eq_mod_sub_self ..).symm
  rw [hdiv, hdiv]
  exact Nat.mul_le_mul_left _ (Nat.div_le_div_right h)

theorem apply_eq {self : InMemoryEventSink} {op : Operation}
    (h : self.lastRecordedTimestamp ≤ normalizeTimestamp P op.timestamp) : self.apply P op =
      { self with lastRecordedTimestamp := normalizeTimestamp P op.timestamp }.handle P op := by
  rw [apply, applyHistoricRecord, if_pos h]
  rfl

def InTime (P : SystemParams) (last : ℕ) (ops : List Operation) : Prop :=
  (∀ op ∈ ops, last ≤ normalizeTimestamp P op.timestamp) ∧
    ops.Pairwise fun a b => normalizeTimestamp P a.timestamp ≤ normalizeTimestamp P b.timestamp

theorem run_ops (hvalid : ∀ query ∈ trace.queries, query.Valid P) (F R : List LogQuery)
    (i j : List ℕ) {last : ℕ} (htime : InTime P last trace.ops) :
    ∃ last', run P ⟨⟨F, i⟩, ⟨R, j⟩, last⟩ trace.ops =
        .ok ⟨⟨F ++ trace.forward P, i⟩, ⟨R ++ trace.rollback, j⟩, last'⟩ ∧
      ∀ n, last ≤ n → (∀ op ∈ trace.ops, normalizeTimestamp P op.timestamp ≤ n) → last' ≤ n := by
  induction trace generalizing F R i j last with
  | done => exact ⟨last, by simp [run, Trace.ops, Trace.forward, Trace.rollback], fun n hn _ => hn⟩
  | emit query rest ih =>
    obtain ⟨hquery, hrest⟩ := List.forall_mem_cons.1 hvalid
    obtain ⟨hlast, htime⟩ := htime
    obtain ⟨hnext, htime⟩ := List.pairwise_cons.1 htime
    obtain ⟨last', hrun, hbound⟩ := ih hrest (F ++ [query]) (R ++ [query.cancellation]) i j
      ⟨hnext, htime⟩
    refine ⟨last', ?_, fun n _ hn => hbound n (hn _ List.mem_cons_self)
      fun op hop => hn op (List.mem_cons_of_mem _ hop)⟩
    rw [run, Trace.ops, List.foldlM_cons, apply_eq (hlast _ List.mem_cons_self)]
    simp only [handle, addPartialQuery, if_pos hquery, Outcome.ok_bind]
    refine hrun.trans ?_
    simp [Trace.forward, Trace.rollback]
  | frame start body panicked finish rest ihbody ihrest =>
    obtain ⟨hbody, hrest⟩ := List.forall_mem_append.1 hvalid
    obtain ⟨hlast, htime⟩ := htime
    -- the timestamps up to the end of the frame are not above the one of the end
    obtain ⟨hfirst, hsecond, hcross⟩ := List.pairwise_append.1 htime
    obtain ⟨hstart, hfirst⟩ := List.pairwise_cons.1 hfirst
    obtain ⟨hfinish, hsecond⟩ := List.pairwise_cons.1 hsecond
    obtain ⟨last₁, hrun₁, hbound₁⟩ := ihbody hbody F R (F.length :: i) (R.length :: j)
      ⟨hstart, hfirst⟩
    have hle := hbound₁ _ (hcross _ List.mem_cons_self _ List.mem_cons_self)
      fun op hop => hcross op (List.mem_cons_of_mem _ hop) _ List.mem_cons_self
    obtain ⟨last', hrun', hbound'⟩ := ihrest hrest
      (F ++ (Trace.frame start body panicked finish .done).forward P)
      (R ++ (Trace.frame start body panicked finish .done).rollback) i j ⟨hfinish, hsecond⟩
    refine ⟨last', ?_, fun n _ hn => hbound' n (hn _ (by simp [Trace.ops]))
      fun op hop => hn op (by simp [Trace.ops, hop])⟩
    unfold run at hrun₁ hrun' ⊢
    rw [Trace.ops, List.cons_append, List.foldlM_cons, apply_eq (hlast _ List.mem_cons_self),
      handle, Outcome.ok_bind, List.foldlM_append]
    simp only [startFrame, FramedStack.pushFrame]
    rw [hrun₁, Outcome.ok_bind, List.foldlM_cons, apply_eq hle, handle]
    cases panicked with
    | false =>
      simpa [finishFrame, mergeFrame, FramedStack.mergeFrame, Trace.forward, Trace.rollback]
        using hrun'
    | true =>
      simpa [finishFrame, moveRollbackToForward, FramedStack.currentFrame, FramedStack.clearFrame,
        FramedStack.extendFrame, mergeFrame, FramedStack.mergeFrame, Trace.forward,
        Trace.rollback] using hrun'

/-! ### Cancelling -/

theorem surviving_sublist : (trace.surviving P).Sublist trace.queries := by
  induction trace with
  | done => exact .refl _
  | emit query rest ih => exact ih.cons_cons _
  | frame _ body panicked _ rest ihbody ihrest =>
    cases panicked with
    | true => exact (List.filter_sublist.trans ihbody).append ihrest
    | false => exact ihbody.append ihrest

theorem rollback_filter : trace.rollback.filter (LogQuery.isReverted P) =
    ((trace.surviving P).filter (LogQuery.isReverted P)).map LogQuery.cancellation := by
  induction trace with
  | done => rfl
  | emit query rest ih =>
    have hsame : query.cancellation.isReverted P = query.isReverted P := rfl
    rw [Trace.rollback, Trace.surviving, List.filter_cons, List.filter_cons, ih, hsame]
    split <;> rfl
  | frame _ body panicked _ rest ihbody ihrest =>
    cases panicked with
    | true => simp [Trace.rollback, Trace.surviving, ihrest]
    | false => simp [Trace.rollback, Trace.surviving, ihbody, ihrest]

def Ordered (queries : List LogQuery) : Prop :=
  queries.Pairwise fun a b => a.timestamp < b.timestamp

theorem cancel_cancellation {l r : List LogQuery} {query : LogQuery}
    (h : Ordered (l ++ query :: r)) :
    cancel (l ++ query :: r) query.cancellation = .ok (l ++ r) := by
  obtain ⟨-, hr, hl⟩ := List.pairwise_append.1 h
  have hfound : ((l ++ query :: r).any fun q => q.timestamp = query.timestamp) = true := by simp
  refine (if_pos hfound).trans ((if_pos rfl).trans (congrArg Outcome.ok ?_))
  rw [List.filter_append, List.filter_cons_of_neg (by simp [LogQuery.cancellation]),
    List.filter_eq_self.2, List.filter_eq_self.2]
  · exact fun q hq => decide_eq_true (List.rel_of_pairwise_cons hr hq).ne'
  · exact fun q hq => decide_eq_true (hl q hq query List.mem_cons_self).ne

theorem foldlM_cancellations {p : LogQuery → Bool} {tmp els r : List LogQuery}
    (h : Ordered (tmp ++ els ++ r)) :
    ((els.filter p).reverse.map LogQuery.cancellation).foldlM cancel (tmp ++ els ++ r) =
      .ok (tmp ++ els.filter (fun query => !p query) ++ r) := by
  induction els using List.reverseRecOn generalizing r with
  | nil => rfl
  | append_singleton els query ih =>
    rw [← List.append_assoc, List.append_assoc _ [query], List.singleton_append] at h ⊢
    rw [List.filter_append, List.filter_append]
    cases hp : p query with
    | true =>
      rw [List.filter_cons_of_pos hp, List.filter_nil, List.reverse_append, List.map_append,
        List.foldlM_append]
      simp only [List.reverse_singleton, List.map_cons, List.map_nil, List.foldlM_cons]
      rw [cancel_cancellation h]
      simpa [hp] using ih (h.sublist ((List.sublist_cons_self _ _).append_left _))
    | false => simpa [hp] using ih h

theorem cancel_forward (hvalid : ∀ query ∈ trace.queries, query.Valid P) {tmp : List LogQuery}
    (h : Ordered (tmp ++ trace.queries)) :
    (trace.forward P).foldlM cancel tmp = .ok (tmp ++ trace.surviving P) := by
  -- `tmp` is what has survived so far
  induction trace generalizing tmp with
  | done => simp [Trace.forward, Trace.surviving]
  | emit query rest ih =>
    obtain ⟨hquery, hrest⟩ := List.forall_mem_cons.1 hvalid
    have hnew : ¬ (tmp.any fun q => q.timestamp = query.timestamp) = true := by
      rw [List.any_eq_true]
      rintro ⟨q, hq, heq⟩
      exact ((List.pairwise_append.1 h).2.2 q hq query List.mem_cons_self).ne
        (of_decide_eq_true heq)
    have hforward : ¬ query.rollback = true := by simpa using hquery.2.2
    rw [Trace.forward, List.foldlM_cons, cancel, if_neg hnew, if_neg hforward, Outcome.ok_bind,
      ih hrest (by simpa [Trace.queries] using h)]
    simp [Trace.surviving]
  | frame _ body panicked _ rest ihbody ihrest =>
    obtain ⟨hbody, hrest⟩ := List.forall_mem_append.1 hvalid
    rw [Trace.queries, ← List.append_assoc] at h
    have hread := ihbody hbody (h.sublist (List.sublist_append_left _ _))
    have hleft : Ordered (tmp ++ body.surviving P ++ rest.queries) :=
      h.sublist ((surviving_sublist.append_left tmp).append_right _)
    cases panicked with
    | false =>
      rw [Trace.forward, List.foldlM_append, hread, Outcome.ok_bind, ihrest hrest hleft,
        Trace.surviving, List.append_assoc]
    | true =>
      -- the cancellations of a frame that panics drop what survived in it
      have hcancelled : body.rollback.reverse.filter (LogQuery.isReverted P) =
          ((body.surviving P).filter (LogQuery.isReverted P)).reverse.map
            LogQuery.cancellation := by
        rw [List.filter_reverse, rollback_filter, List.map_reverse]
      have hcancel := foldlM_cancellations (p := LogQuery.isReverted P) (r := [])
        (h := (List.append_nil (tmp ++ body.surviving P)).symm ▸
          hleft.sublist (List.sublist_append_left _ _))
      rw [List.append_nil, List.append_nil] at hcancel
      rw [Trace.forward, List.foldlM_append, List.foldlM_append, hread, Outcome.ok_bind, hcancelled,
        hcancel, Outcome.ok_bind, ihrest hrest, Trace.surviving, List.append_assoc]
      exact hleft.sublist ((List.filter_sublist.append_left tmp).append_right _)

theorem mapM_find {queries els : List LogQuery} (h : Ordered queries) (hmem : els ⊆ queries) :
    (els.map LogQuery.timestamp).mapM (fun k => (Outcome.unwrap
      (queries.find? fun query => query.timestamp = k) : Outcome Unit LogQuery)) = .ok els := by
  induction els with
  | nil => rfl
  | cons el rest ih =>
    obtain ⟨hel, hrest⟩ := List.cons_subset.1 hmem
    rw [List.map_cons, List.mapM_cons, find?_key_of_mem (List.pairwise_map.2 h) hel, ih hrest]
    rfl

theorem fromHistory_eq (hvalid : ∀ query ∈ trace.queries, query.Valid P)
    (h : Ordered trace.queries) :
    eventsAndL1MessagesFromHistory P (trace.forward P) = .ok (byKind P (trace.surviving P)) := by
  have hordered : Ordered (trace.surviving P) := h.sublist surviving_sublist
  have hsorted : ((trace.surviving P).map LogQuery.timestamp).mergeSort =
      (trace.surviving P).map LogQuery.timestamp :=
    List.mergeSort_eq_self (· ≤ ·) (List.pairwise_map.2 (hordered.imp fun hlt => hlt.le))
  have hcancel : (trace.forward P).foldlM cancel [] = .ok (trace.surviving P) :=
    cancel_forward hvalid h
  simp only [eventsAndL1MessagesFromHistory, hcancel, Outcome.ok_bind, hsorted,
    mapM_find hordered (.refl _)]

namespace Trace

variable {before after : Trace}

theorem append_eq : (before.append after).forward P = before.forward P ++ after.forward P ∧
    (before.append after).surviving P = before.surviving P ++ after.surviving P ∧
    (before.append after).queries = before.queries ++ after.queries := by
  induction before with
  | done => exact ⟨rfl, rfl, rfl⟩
  | emit query rest ih => simp [append, forward, surviving, queries, ih]
  | frame _ body panicked _ rest _ ih =>
    cases panicked <;> simp [append, forward, surviving, queries, ih]

theorem exists_query :
    (∀ e ∈ trace.forward P, ∃ query ∈ trace.queries, query.timestamp = e.timestamp) ∧
    ∀ e ∈ trace.rollback, ∃ query ∈ trace.queries, query.timestamp = e.timestamp := by
  induction trace with
  | done => exact ⟨nofun, nofun⟩
  | emit query rest ih =>
    have hcancellation : query.cancellation.timestamp = query.timestamp := rfl
    grind [forward, rollback, queries]
  | frame _ body panicked _ rest ihbody ihrest =>
    cases panicked <;> grind [forward, rollback, queries]

end Trace

def sampleParams : SystemParams := ⟨.replicate 20 1, 2, 3, 4⟩

def sampleQuery (timestamp : ℕ) (address auxByte : UInt8) : LogQuery :=
  ⟨timestamp, 0, auxByte, 0, .replicate 20 address, 5, 6, true, false, false⟩

/-- A frame panics in which the bootloader emits an event, too. -/
def sampleTrace : Trace :=
  .emit (sampleQuery 1 9 2)
    (.frame 2 (.emit (sampleQuery 3 9 2) (.emit (sampleQuery 4 1 2) .done)) true 5 .done)

end EventSink
