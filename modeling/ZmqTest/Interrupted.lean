/-
# Receives that fail

`s_recv` reports no error, so its callers go on with what their buffer holds. The
server of `erl/server2.c` looks for a signal only after it has handled the buffer, and
forks a second child for a message it has already had; the sink counts a result.
-/

import ZmqTest.Erl.Server2
import ZmqTest.Task.Sink

namespace ZmqTest

/-- In every run, the server forks at most as many children as it has received small
integers if and only if no receive fails while the buffer holds a small integer, and
the sink counts at most as many results as it has received messages if and only if at
most one of its receives has failed. -/
theorem failed_receives_counted_iff {getType : List UInt8 → Int} {garbage : List UInt8}
    {es : List Erl.Server2Event} {os : List Erl.Server2Output} {s : Erl.Server2State}
    (server : (Erl.server2 getType garbage).Run es os s)
    {fs : List Task.SinkEvent} {ps : List Task.SinkOutput} {t : Task.SinkPc}
    (sink : Task.sink.Run fs ps t) :
    (Erl.children os ≤ Erl.smallIntegers os ↔
      (Erl.server2 getType garbage).StepsMeet (Erl.NothingStale getType) es) ∧
    (Task.countedResults ps ≤ Task.receivedMessageCount ps ↔ Task.failedReceives fs ≤ 1) :=
  ⟨Erl.children_le_iff server, Task.countedResults_le_iff sink⟩

/-- The type of a term: the byte behind the version number. -/
def typeByte (buffer : List UInt8) : Int := (buffer.getD 1 0).toNat

/-- A small integer and a float arrive before the signal. -/
def floatRun : List Erl.Server2Event :=
  [.recv (some [131, 97, 5]), .test, .recv (some [131, 99, 0]), .test, .signal, .recv none]

theorem failed_receives_counted_iff_float :
    ∃ os ps s t, (Erl.server2 typeByte []).Run floatRun os s ∧
      Task.sink.Run [.recv (some [48]), .recv none] ps t ∧
      Erl.children os ≤ Erl.smallIntegers os ∧
      Task.countedResults ps ≤ Task.receivedMessageCount ps := by
  have server : (Erl.server2 typeByte []).Run floatRun
      [.received 97, .forked, .received 99] ⟨.test, [131, 99, 0, 0], true⟩ :=
    Machine.run_of_exec (by decide)
  have sink : Task.sink.Run [.recv (some [48]), .recv none] [.received, .counted 58] (.loop 1) :=
    Machine.run_of_exec (by decide)
  have fresh : (Erl.server2 typeByte []).StepsMeet (Erl.NothingStale typeByte) floatRun :=
    Machine.stepsMeet_of_check (by decide)
  obtain ⟨children, results⟩ := failed_receives_counted_iff server sink
  exact ⟨_, _, _, _, server, sink, children.mpr fresh, results.mpr (by decide)⟩

/-- A failed receive is taken for a message by both: the server forks a second child
for the integer it has received before the signal, and the sink, when two receives have
failed, has counted more results than messages have come. -/
theorem failed_receives_counted :
    (¬ ∀ getType garbage es os s, (Erl.server2 getType garbage).Run es os s →
      Erl.children os ≤ Erl.smallIntegers os) ∧
    ¬ ∀ es os s, Task.sink.Run es os s →
      Task.countedResults os ≤ Task.receivedMessageCount os := by
  constructor
  · intro claim
    have server : (Erl.server2 typeByte []).Run
        [.recv (some [131, 97, 5]), .test, .signal, .recv none]
        [.received 97, .forked, .forked] ⟨.test, [131, 97, 5, 0], true⟩ :=
      Machine.run_of_exec (by decide)
    exact absurd (claim _ _ _ _ _ server) (by decide)
  · intro claim
    have sink : Task.sink.Run [.recv (some [48]), .recv none, .recv none]
        [.received, .counted 58, .counted 46] (.loop 2) := Machine.run_of_exec (by decide)
    exact absurd (claim _ _ _ sink) (by decide)

end ZmqTest
