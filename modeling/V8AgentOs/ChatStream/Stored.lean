import V8AgentOs.ChatStream.Calm

-- The chunks of a message show the text that is kept of it.
namespace ChatStream

open ModelEvents Python

open Emission (Keeps keeps_all)

-- Texts by their runs, in the order in which the runs have come
@[ext]
structure Texts where
  order : List String
  text  : String → Chars

def Texts.put (t : Texts) (runKey : String) (change : Chars → Chars) : Texts where
  order := if runKey ∈ t.order then t.order else t.order ++ [runKey]
  text  := Function.update t.text runKey (change (t.text runKey))

def Texts.whole (t : Texts) : Chars :=
  t.order.flatMap t.text

-- A reader puts the chunks of a run together. A chunk that replaces its stream leaves nothing of the ones before.
def Texts.read (t : Texts) : Chunk → Texts
  | .text true runKey content _ true  => t.put runKey fun _ => content
  | .text true runKey content _ false => t.put runKey (· ++ content)
  | _                                 => t

def seen (chunks : List Chunk) : Texts :=
  chunks.foldl Texts.read ⟨[], fun _ => []⟩

def ChatStreamState.stored (s : ChatStreamState) : Texts :=
  ⟨s.outputTextRunOrder, s.outputTextByRun⟩

-- What a reader will have seen once the buffer has been flushed.
def settled (s : ChatStreamState) (t : Texts) : Texts :=
  if s.textAggregator.buffer = [] then t
  else t.put (normalizedModelRunId s.lastText.2) (· ++ s.textAggregator.buffer)

structure Faithful (s : ChatStreamState) (out : List Chunk) : Prop where
  calm   : Calm s
  stored : s.stored = settled s (seen out)
  filter : s.outputTextRunOrder ≠ [] → s.textFilter.flushed
  buffer : s.outputBuffer = s.outputTextRunOrder.map s.outputTextByRun

variable {s t : ChatStreamState} {out chunks : List Chunk} {texts : Texts} {display terminal readyOnly final : Bool}
  {runKey modelRunId : String} {delta content : Chars} {runIds : List String} {event : CanonicalModelEvent}
  {change : Chars → Chars}

section Reading

end Reading

section Reasoning

-- What a step leaves alone that has to do with reasoning only
structure Apart (s t : ChatStreamState) : Prop where
  stores           : t.stores = s.stores
  textFilter       : t.textFilter = s.textFilter
  textAggregator   : t.textAggregator = s.textAggregator
  outputBuffer     : t.outputBuffer = s.outputBuffer
  outputTextByRun  : t.outputTextByRun = s.outputTextByRun
  outputOrder      : t.outputTextRunOrder = s.outputTextRunOrder
  narrativeStarted : t.narrativeStarted = s.narrativeStarted
  lastText         : t.lastText = s.lastText

theorem Apart.refl : Apart s s := ⟨rfl, rfl, rfl, rfl, rfl, rfl, rfl, rfl⟩

theorem Faithful.apart (h : Faithful s out) (ha : Apart s t) (hc : Calm t) (hr : seen (out ++ chunks) = seen out) :
    Faithful t (out ++ chunks) := by
  constructor
  case calm   => exact hc
  case stored =>
    rw [ChatStreamState.stored, settled, ha.outputOrder, ha.outputTextByRun, ha.textAggregator, ha.lastText, hr]
    exact h.stored
  case filter => rw [ha.outputOrder, ha.textFilter]; exact h.filter
  case buffer => rw [ha.outputBuffer, ha.outputOrder, ha.outputTextByRun, h.buffer]

theorem Apart.trans {u : ChatStreamState} (h : Apart s t) (h' : Apart t u) : Apart s u where
  stores           := h'.stores.trans h.stores
  textFilter       := h'.textFilter.trans h.textFilter
  textAggregator   := h'.textAggregator.trans h.textAggregator
  outputBuffer     := h'.outputBuffer.trans h.outputBuffer
  outputTextByRun  := h'.outputTextByRun.trans h.outputTextByRun
  outputOrder      := h'.outputOrder.trans h.outputOrder
  narrativeStarted := h'.narrativeStarted.trans h.narrativeStarted
  lastText         := h'.lastText.trans h.lastText

end Reasoning

section Texts

-- The buffer is empty, or it holds what the run has said last.
def InTurn (s : ChatStreamState) (modelRunId : String) : Prop :=
  s.textAggregator.buffer ≠ [] → normalizedModelRunId modelRunId = normalizedModelRunId s.lastText.2

theorem settled_nil (h : s.textAggregator.buffer = []) : settled s texts = texts := by
  rw [settled, if_pos h]

end Texts

section Events

variable {filter : StreamFilter} {last : Last} {additive : Bool}

end Events
end ChatStream
