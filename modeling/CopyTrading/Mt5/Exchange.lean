import CopyTrading.Mt5.Sync

/-!
# Mt5.Exchange — the expert advisor and its polls (`MirrorFleet.mq5`)

The expert advisor polls, runs the commands of the reply one after the other and keeps the acknowledgements
until a poll is answered.  It remembers the last ids it ran, in a file that survives its restarts, and
acknowledges such an id again instead of running it.  A request or its reply may be lost, and an old reply or
an old report may turn up again.
-/

namespace Copier.Mt5

/-- `ACK_FILE_LIMIT`. -/
def ackFileLimit : ℕ := 500

/-- A trading terminal: how it runs a command, what it does by itself, and its book. -/
structure Terminal (τ μ : Type) where
  exec : Payload → τ → τ × Result
  move : μ → τ → Option τ
  positions : τ → List ReportPosition
  /-- The deals, oldest first. -/
  deals : τ → List ReportDeal

/-! ### The expert advisor -/

/-- The memory and the files of the expert. -/
structure Expert where
  /-- `g_done_acks`, oldest first; also the file. -/
  done : List Ack
  pendingAcks : List Ack
  watermark : ℕ
  /-- The lines of the reply that are still to be executed. -/
  inbox : List CommandRow

namespace Expert

variable (e : Expert)

/-- `FindDone`. -/
def findDone (id : ℕ) : Option Ack := e.done.reverse.find? fun k => k.commandId = id

/-- `RememberDone`. -/
def rememberDone (k : Ack) : Expert :=
  { e with done := (if ackFileLimit ≤ e.done.length then e.done.tail else e.done) ++ [k] }

/-- `PushAck`. -/
def pushAck (k : Ack) : Expert := { e with pendingAcks := e.pendingAcks ++ [k] }

/-- `Sync`, once it is answered: the acknowledgements and deals were delivered, the commands are taken. -/
def answered (deals : List ReportDeal) (reply : List CommandRow) : Expert :=
  { e with
    pendingAcks := []
    watermark := (deals.map ReportDeal.ticket).foldl max e.watermark
    inbox := reply }

/-- A restart and the `hello` after it; the file is read back. -/
def restarted (watermark : ℕ) : Expert := ⟨e.done, [], watermark, []⟩

end Expert

/-! ### The exchange -/

/-- What becomes of a poll that the server may or may not get. -/
inductive Fate where
  | delivered
  | replyLost
  /-- The answer is an old reply. -/
  | stale (handled : Bool) (reply : List CommandRow)

/-- The server, the expert and the terminal. -/
structure Exchange (τ : Type) where
  server : Server
  expert : Expert
  terminal : τ
  clock : ℚ
  /-- Every reply of the server, newest first. -/
  replies : List (List CommandRow)
  /-- Every command the terminal ran, newest first. -/
  executed : List Ack

/-- What happens next between them. -/
inductive ExchangeAction (μ : Type) where
  | dispatch (gates : Org) (intents : List SlaveIntent)
  /-- The master's levels are remembered. -/
  | remember (levels : Protection)
  /-- A command of an operator. -/
  | operate (account : ℕ) (payload : Payload)
  | tick (now : ℚ)
  /-- A poll with the next `count` deals. -/
  | poll (gates : Org) (count : ℕ) (fate : Fate)
  /-- A report that is not the expert's: another terminal's, or an old one again. -/
  | report (gates : Org) (account : ℕ) (report : FollowerReport)
  /-- The next line of the reply. -/
  | execute
  /-- The terminal trades by itself. -/
  | own (m : μ)
  | restart

/-- What is the same for the whole life of the exchange. -/
structure ExchangeConfig (τ μ : Type) where
  server : ServerConfig
  account : ℕ
  terminal : Terminal τ μ

namespace Exchange

variable {τ μ : Type} (cfg : ExchangeConfig τ μ) (s : Exchange τ)

/-- The deals that a poll carries. -/
def newDeals (count : ℕ) : List ReportDeal :=
  ((cfg.terminal.deals s.terminal).filter fun d => s.expert.watermark < d.ticket).take count

/-- `SyncBody`. -/
def body (count : ℕ) : FollowerReport :=
  ⟨cfg.terminal.positions s.terminal, s.expert.pendingAcks, s.newDeals cfg count⟩

/-- The server handles a report. -/
def handle (gates : Org) (account : ℕ) (report : FollowerReport) : Exchange τ :=
  let x := s.server.sync cfg.server gates s.clock account report
  { s with server := x.1, replies := x.2 :: s.replies }

/-- The reply of the server to a report. -/
def reply (gates : Org) (account : ℕ) (report : FollowerReport) : List CommandRow :=
  (s.server.sync cfg.server gates s.clock account report).2

/-- `ExecuteLine`. -/
def executeLine (line : CommandRow) : Exchange τ :=
  match s.expert.findDone line.id with
  | some k => { s with expert := s.expert.pushAck k }
  | none =>
    let x := cfg.terminal.exec line.payload s.terminal
    let k : Ack := ⟨line.id, x.2⟩
    { s with terminal := x.1, expert := (s.expert.rememberDone k).pushAck k, executed := k :: s.executed }

/-- One action; `none` where it cannot happen. -/
def fire : ExchangeAction μ → Exchange τ → Option (Exchange τ)
  | .dispatch gates intents, s =>
    some { s with server := s.server.dispatch cfg.server gates s.clock intents }
  | .remember levels, s =>
    some { s with server := { s.server with service := { s.server.service with masterProtection := levels } } }
  | .operate account payload, s =>
    some { s with server := { s.server with rows := s.server.rows ++
      [queuedRow s.server.rows.length account cfg.server.org s.clock payload none false false] } }
  | .tick now, s => if s.clock ≤ now then some { s with clock := now } else none
  | .poll gates count fate, s =>
    -- the commands of one reply are executed before the next poll
    if s.expert.inbox = [] then
      let report := s.body cfg count
      match fate with
      | .delivered =>
        some { s.handle cfg gates cfg.account report with
          expert := s.expert.answered report.deals (s.reply cfg gates cfg.account report) }
      | .replyLost => some (s.handle cfg gates cfg.account report)
      | .stale handled reply =>
        if reply ∈ s.replies ∧ ∀ r ∈ reply, r.accountId = cfg.account then
          some { (if handled then s.handle cfg gates cfg.account report else s) with
            expert := s.expert.answered report.deals reply }
        else none
    else none
  | .report gates account report, s => some (s.handle cfg gates account report)
  | .execute, s =>
    match s.expert.inbox with
    | [] => none
    | line :: rest => some ({ s with expert := { s.expert with inbox := rest } }.executeLine cfg line)
  | .own m, s => (cfg.terminal.move m s.terminal).map fun t => { s with terminal := t }
  | .restart, s => some { s with expert := s.expert.restarted (s.server.watermark cfg.account) }

/-- Nothing has been exchanged. -/
def init (terminal : τ) : Exchange τ :=
  ⟨⟨[], ⟨.empty, []⟩, fun _ => 0, fun _ => []⟩, ⟨[], [], 0, []⟩, terminal, 0, [], []⟩

end Exchange

end Copier.Mt5
