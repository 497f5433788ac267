/-
The reads of the two fan-outs of a build. Each is one call (`AsksOne`), and what
comes of it is a function of the reply; in a fan-out all calls are made, and it
ends with all that came of them, or fails as one of them did (`runs_fanOut`).
-/
import PoolKeeper.Proofs.FanOut
import PoolKeeper.Proofs.Transcript
import PoolKeeper.State.Build

namespace PoolKeeper.Snapshot.Build

/-- A task of a fan-out that asks one thing, with the reply to it. -/
structure Answered {τ : Type} (call : τ → Chain.Call) where
  task : τ
  reply : Chain.Reply (call task)

/-- What is said for a task. -/
def Answered.said {τ : Type} {call : τ → Chain.Call} (a : Answered call) : Exchange World :=
  ⟨.inl (call a.task), a.reply⟩

/-- Every run of a task is one call, and what comes of it is told by the reply. -/
def AsksOne {τ α : Type} (task : τ → Attempt Chain BuildFault α) (call : τ → Chain.Call)
    (content : Answered call → Except BuildFault α) : Prop :=
  ∀ {t log r}, (task t).Runs log r →
    ∃ a : Answered call, a.task = t ∧ log = [⟨call a.task, a.reply⟩] ∧ r = content a

/-- The call that reads a part. -/
def Part.call (block : UInt64) : Part → Chain.Call
  | .setting s => .readWords [.setting s] (some block)
  | .nodes offset limit => .nodeDetails offset limit block
  | .minipools offset limit => .minipoolDetails offset limit block

/-- A part that was asked for, and the reply. -/
abbrev PartRead (block : UInt64) : Type := Answered (Part.call block)

/-- What comes of a part, from the reply. -/
def PartRead.content {block : UInt64} : PartRead block → Except BuildFault PartContent
  | ⟨.setting s, reply⟩ =>
    match reply with
    | .ok (value :: _) => .ok (.setting s value)
    | .ok [] => .error (.read (Part.setting s).title block (.text "empty read result"))
    | .error f => .error (.read (Part.setting s).title block f)
  | ⟨.nodes offset limit, reply⟩ =>
    (reply.map PartContent.nodes).mapError (.read (Part.nodes offset limit).title block)
  | ⟨.minipools offset limit, reply⟩ =>
    (reply.map PartContent.minipools).mapError (.read (Part.minipools offset limit).title block)

/-- The call that reads shares. -/
def sharesCall (block : UInt64) (balances : List (Address × Word)) : Chain.Call :=
  .minipoolShares balances block

/-- Shares that were asked for, and the reply. -/
abbrev ShareRead (block : UInt64) : Type := Answered (sharesCall block)

/-- What comes of a page of shares, from the reply. -/
def ShareRead.content {block : UInt64} : ShareRead block → Except BuildFault (List MinipoolShares)
  | ⟨balances, reply⟩ =>
    match reply with
    | .ok shares =>
      (checkCount "minipool share" shares.length (UInt64.ofNat balances.length) block).map
        fun _ => shares
    | .error f =>
      .error (.read ("balance shares of " ++ Numeral.decimal balances.length ++ " minipools") block
        f)

theorem ShareRead.content_ok {block : UInt64} {balances : List (Address × Word)}
    (hsize : balances.length < 2 ^ 64) (shares : List MinipoolShares) :
    ShareRead.content (⟨balances, .ok shares⟩ : ShareRead block) =
      if shares.length = balances.length then .ok shares
      else .error (.inconsistent block ("expected " ++ Numeral.decimal balances.length ++
        " minipool share records, got " ++ Numeral.decimal shares.length)) := by
  change (checkCount "minipool share" shares.length (UInt64.ofNat balances.length) block).map
    (fun _ => shares) = _
  rw [checkCount, UInt64.toNat_ofNat_of_lt' hsize]
  split
  · rfl
  · have hwords : " minipool share records, got " =
        " " ++ "minipool share" ++ " records, got " := by decide
    rw [hwords]
    simp only [Except.map, String.append_assoc]

theorem ShareRead.content_eq_ok_iff {block : UInt64} {a : ShareRead block}
    (hsize : a.task.length < 2 ^ 64) {shares : List MinipoolShares} :
    a.content = .ok shares ↔ a.reply = .ok shares ∧ shares.length = a.task.length := by
  obtain ⟨balances, reply⟩ := a
  cases reply with
  | error f => exact ⟨nofun, nofun⟩
  | ok got =>
    rw [ShareRead.content_ok hsize]
    split
    · rename_i h
      constructor
      · intro he
        cases he
        exact ⟨rfl, h⟩
      · rintro ⟨he, -⟩
        cases he
        rfl
    · rename_i h
      refine ⟨nofun, ?_⟩
      rintro ⟨he, hlength⟩
      cases he
      exact absurd hlength h

theorem runs_partContent (block : UInt64) :
    AsksOne (partContent block) (Part.call block) PartRead.content := by
  intro p log r h
  obtain ⟨q, hq, rfl⟩ := Attempt.runs_mapError.1 h
  cases p with
  | setting s =>
    obtain ⟨e, hread, rfl⟩ | ⟨words, l₁, l₂, hread, hrest, rfl⟩ := Attempt.runs_bind.1 hq
    · cases Program.runs_call.1 hread
      exact ⟨⟨.setting s, .error e⟩, rfl, rfl, rfl⟩
    cases Program.runs_call.1 hread
    cases words with
    | nil =>
      obtain ⟨rfl, rfl⟩ := Attempt.runs_throw.1 hrest
      exact ⟨⟨.setting s, .ok []⟩, rfl, rfl, rfl⟩
    | cons w ws =>
      obtain ⟨rfl, rfl⟩ := Attempt.runs_pure.1 hrest
      exact ⟨⟨.setting s, .ok (w :: ws)⟩, rfl, rfl, rfl⟩
  | nodes offset limit =>
    obtain ⟨reply, hread, rfl⟩ := Attempt.runs_map.1 hq
    cases Program.runs_call.1 hread
    exact ⟨⟨.nodes offset limit, reply⟩, rfl, rfl, rfl⟩
  | minipools offset limit =>
    obtain ⟨reply, hread, rfl⟩ := Attempt.runs_map.1 hq
    cases Program.runs_call.1 hread
    exact ⟨⟨.minipools offset limit, reply⟩, rfl, rfl, rfl⟩

theorem runs_sharePage (block : UInt64) :
    AsksOne (sharePage block) (sharesCall block) ShareRead.content := by
  intro balances log r h
  obtain ⟨e, hread, rfl⟩ | ⟨shares, l₁, l₂, hread, hrest, rfl⟩ := Attempt.runs_bind.1 h
  · obtain ⟨f, hf, rfl⟩ := Attempt.runs_mapError_error.1 hread
    cases Program.runs_call.1 hf
    exact ⟨⟨balances, .error f⟩, rfl, rfl, rfl⟩
  cases Program.runs_call.1 (Attempt.runs_mapError_ok.1 hread)
  refine ⟨⟨balances, .ok shares⟩, rfl, ?_⟩
  change _ = _ ∧ r = (checkCount "minipool share" shares.length _ block).map fun _ => shares
  obtain ⟨e, hcheck, rfl, rfl⟩ | ⟨u, hcheck, hpure⟩ := Attempt.runs_ofExcept_bind.1 hrest
  · rw [hcheck]
    exact ⟨rfl, rfl⟩
  · obtain ⟨rfl, rfl⟩ := Attempt.runs_pure.1 hpure
    rw [hcheck]
    exact ⟨rfl, rfl⟩

section FanOut
variable {τ α : Type} {task : τ → Attempt Chain BuildFault α} {call : τ → Chain.Call}
  {content : Answered call → Except BuildFault α}

/-- Every task asks its one thing, and all of them do. -/
theorem runs_outcomes (htask : AsksOne task call content)
    {ts : List τ} {log : List (Exchange Chain)} {results : List (Except BuildFault α)}
    (h : (outcomes task ts).Runs log results) :
    ∃ reads : List (Answered call), reads.map Answered.task = ts ∧
      log.map Exchange.left = reads.map Answered.said ∧ results = reads.map content := by
  induction ts generalizing log results with
  | nil =>
    obtain ⟨rfl, rfl⟩ := Program.runs_pure.1 h
    exact ⟨[], rfl, rfl, rfl⟩
  | cons t ts ih =>
    obtain ⟨r, l₁, l₂, hr, hrest, rfl⟩ := Program.runs_bind.1 h
    obtain ⟨a, rfl, rfl, rfl⟩ := htask hr
    obtain ⟨rs, l₃, l₄, hrs, hpure, rfl⟩ := Program.runs_bind.1 hrest
    obtain ⟨rfl, rfl⟩ := Program.runs_pure.1 hpure
    obtain ⟨reads, rfl, hlog, rfl⟩ := ih hrs
    refine ⟨a :: reads, rfl, ?_, rfl⟩
    rw [List.append_nil, List.map_append, hlog]
    rfl

/-- **In a fan-out everything is asked.** It succeeds if all tasks do, and else fails as one of
them. -/
theorem runs_fanOut (htask : AsksOne task call content)
    {limit : Nat} {schedule : FanOut.Schedule limit} {ts : List τ} {log : List (Exchange World)}
    {r : Except BuildFault (List α)} (h : (fanOut schedule task ts).Runs log r) :
    ∃ reads : List (Answered call), reads.map Answered.task = ts ∧
      log = reads.map Answered.said ∧
      ((∃ outputs, reads.map content = outputs.map .ok ∧ r = .ok outputs) ∨
        ∃ e, (∃ a ∈ reads, content a = .error e) ∧ r = .error e) := by
  obtain ⟨l, hl, rfl⟩ := Attempt.runs_onLeft.1 h
  obtain ⟨results, l₁, l₂, hresults, hpure, rfl⟩ := Program.runs_bind.1 hl
  obtain ⟨rfl, rfl⟩ := Program.runs_pure.1 hpure
  obtain ⟨reads, hasked, hlog, rfl⟩ := runs_outcomes htask hresults
  refine ⟨reads, hasked, by rw [List.append_nil, hlog], ?_⟩
  have hlength : (reads.map content).length = ts.length := by
    rw [List.length_map, ← hasked, List.length_map]
  have hall : (schedule.order ts.length).Perm (List.range (reads.map content).length) :=
    hlength ▸ (schedule.completes ts.length).all
  cases hcollect : FanOut.collect (reads.map content) (schedule.order ts.length) with
  | ok outputs => exact .inl ⟨outputs, (FanOut.collect_eq_ok_iff hall).1 hcollect, rfl⟩
  | error e => exact .inr ⟨e, List.mem_map.1 (FanOut.mem_of_collect_eq_error hcollect), rfl⟩

end FanOut

/-- A page of shares is of no more minipools than are asked for at once. -/
theorem length_task_lt {plan : Plan} {block : UInt64} {balances : List (Address × Word)}
    {reads : List (ShareRead block)}
    (asked : reads.map Answered.task = pieces plan.pageSize.toNat balances) :
    ∀ a ∈ reads, a.task.length < 2 ^ 64 := by
  intro a ha
  have hpage : a.task ∈ pieces plan.pageSize.toNat balances :=
    asked ▸ List.mem_map_of_mem (f := Answered.task) ha
  exact Nat.lt_of_le_of_lt (length_le_of_mem_pieces hpage) plan.pageSize.toNat_lt

theorem exists_ok_of_mem {τ α : Type} {content : τ → Except BuildFault α} {reads : List τ}
    {outputs : List α} (contents : reads.map content = outputs.map .ok) {a : τ} (ha : a ∈ reads) :
    ∃ output, content a = .ok output := by
  have hmem : content a ∈ outputs.map Except.ok := contents ▸ List.mem_map_of_mem ha
  obtain ⟨output, -, hok⟩ := List.mem_map.1 hmem
  exact ⟨output, hok.symm⟩

end PoolKeeper.Snapshot.Build
