import Toolbox8.RootContext

set_option autoImplicit false

namespace Toolbox8.RootContext

open Base

-- DummyPlugged.Config.
def dummy : PluggedConfig := ⟨0, 0, ⟨[], "toolbox8.jartree.streamapp.DummyPlugged$"⟩⟩

-- The server process. What it leaves behind is its config file.
inductive Process where
  | down (file : Option ClassLoaderConfig)
  | up (s : System)

-- puts records the configs that requests have put into holder, over all lives.
structure Server where
  life : Nat
  process : Process
  puts : List ClassLoaderConfig

inductive ServerEvent where
  | boot (loaded : Option ClassLoader)
  | request (event : Event)
  | kill (writer : Option Nat)
deriving DecidableEq, Repr

-- main reads the file, loads its class and plugs it. A file that is not there or not whole, and an exception in any
-- of these, make it start with the dummy.
def boot (file : Option ClassLoaderConfig) (loaded : Option ClassLoader) : PluggedConfig :=
  match file, loaded with
  | some clc, some cl => ⟨1, cl, clc⟩
  | _, _ => dummy

-- The process ends at any time. A request that is writing the file then may leave it torn.
def leaves (s : System) : Option Nat → Option (Option ClassLoaderConfig)
  | none => some s.file
  | some writer =>
      match s.phases writer with
      | .writing _ => some none
      | _ => none

def serverStep (kinds : Nat → Nat → Kind) (s : Server) : ServerEvent → Option Server
  | .boot loaded =>
      match s.process with
      | .down file => some { s with process := .up (requests (kinds s.life) (boot file loaded) file).initial }
      | .up _ => none
  | .request event =>
      match s.process with
      | .down _ => none
      | .up t =>
          (step (kinds s.life) t event).map (fun next =>
            { s with
              process := .up next
              puts := s.puts ++ if event.action = .replace then [next.holder.classLoaderConfig] else [] })
  | .kill writer =>
      match s.process with
      | .down _ => none
      | .up t => (leaves t writer).map (fun file => { s with life := s.life + 1, process := .down file })

def server (kinds : Nat → Nat → Kind) (file : Option ClassLoaderConfig) : Machine Server ServerEvent where
  initial := ⟨0, .down file, []⟩
  step := serverStep kinds

-- The root that was put last, or the one of the file that the first process finds.
def Server.lastPut (file : Option ClassLoaderConfig) (s : Server) : Option ClassLoaderConfig := s.puts.getLast?.or file

-- The request has put its root into holder and has not persisted it.
def Phase.pending (kind : Kind) : Phase → Bool
  | .stopping _ => kind = .replaceFirst
  | .persisting => true
  | .writing _ => true
  | _ => false

-- No request replaces the root while another is writing, and none fails or is killed between its root and its file.
def InTurn (kinds : Nat → Nat → Kind) (s : Server) (event : ServerEvent) : Prop :=
  ∀ t, s.process = .up t →
    match event with
    | .boot _ => True
    | .request event => Undisturbed t event ∧
        ∀ torn, event.action = .fail torn → (t.phases event.request).pending (kinds s.life event.request) = false
    | .kill _ => ∀ r, (t.phases r).pending (kinds s.life r) = false

structure Lasting (kinds : Nat → Kind) (last : Option ClassLoaderConfig) (t : System) : Prop where
  held : ∀ r, (t.phases r).pending (kinds r) = true → some t.holder.classLoaderConfig = last
  written : t.file = last ∨ ∃ r, (t.phases r).pending (kinds r) = true
  writing : WritingHolder t
  getting : ∀ r, t.phases r = .getting → kinds r = .stopFirst

-- Where nothing is under way, the file is the last root.
def Durable (kinds : Nat → Nat → Kind) (file : Option ClassLoaderConfig) (s : Server) : Prop :=
  match s.process with
  | .down left => left = s.lastPut file
  | .up t => Lasting (kinds s.life) (s.lastPut file) t

section Steps

variable (kinds : Nat → Kind) (last : Option ClassLoaderConfig) (t : System)

theorem each_phase (holds : Kind → Phase → Prop) (r : Nat) (phase : Phase) (others : ∀ other, holds (kinds other) (t.phases other))
    (own : holds (kinds r) phase) (other : Nat) : holds (kinds other) (Function.update t.phases r phase other) :=
  update_phase (holds (kinds other)) t.phases r other phase (fun same => same ▸ own) (fun _ => others other)

theorem lasting_frame (r : Nat) (shared : Shared) (phase : Phase) (lasting : Lasting kinds last t)
    (writing : WritingHolder ⟨shared, Function.update t.phases r phase⟩) (holder : shared.holder = t.holder)
    (file : shared.file = t.file) (pending : phase.pending (kinds r) = (t.phases r).pending (kinds r))
    (getting : phase = .getting → kinds r = .stopFirst) :
    Lasting kinds last ⟨shared, Function.update t.phases r phase⟩ := by
  have same : ∀ other, (Function.update t.phases r phase other).pending (kinds other) = (t.phases other).pending (kinds other) := by
    intro other
    rcases eq_or_ne other r with rfl | different
    · rw [Function.update_self, pending]
    · rw [Function.update_of_ne different]
  refine ⟨?_, ?_, writing, ?_⟩
  · intro other isPending
    rw [same] at isPending
    simpa only [holder] using lasting.held other isPending
  · simpa only [file, same] using lasting.written
  · exact each_phase kinds t (fun kind phase => phase = .getting → kind = .stopFirst) r phase lasting.getting getting

theorem lasting_replace (r : Nat) (new : PluggedConfig) (lasting : Lasting kinds last t)
    (writing : WritingHolder ⟨{ t.toShared with holder := new, replaced := t.replaced ++ [(r, t.holder.plugged)] },
      Function.update t.phases r ((kinds r).swapped t.holder)⟩) :
    Lasting kinds (some new.classLoaderConfig)
      ⟨{ t.toShared with holder := new, replaced := t.replaced ++ [(r, t.holder.plugged)] },
        Function.update t.phases r ((kinds r).swapped t.holder)⟩ := by
  refine ⟨fun _ _ => rfl, .inr ⟨r, ?_⟩, writing, ?_⟩
  · simp only [Function.update_self]
    cases kinds r <;> rfl
  · refine each_phase kinds t (fun kind phase => phase = .getting → kind = .stopFirst) r _ lasting.getting ?_
    cases kinds r <;> simp [Kind.swapped]

theorem lasting_write (r : Nat) (clc : ClassLoaderConfig) (here : t.phases r = .writing clc) (lasting : Lasting kinds last t)
    (writing : WritingHolder ⟨{ t.toShared with file := some clc }, Function.update t.phases r .done⟩) :
    Lasting kinds last ⟨{ t.toShared with file := some clc }, Function.update t.phases r .done⟩ := by
  have held : some t.holder.classLoaderConfig = last := lasting.held r (by rw [here]; rfl)
  refine ⟨?_, .inl ?_, writing, ?_⟩
  · refine each_phase kinds t (fun kind phase => phase.pending kind = true → some t.holder.classLoaderConfig = last) r .done
      lasting.held ?_
    simp [Phase.pending]
  · rw [← held, lasting.writing r clc here]
  · exact each_phase kinds t (fun kind phase => phase = .getting → kind = .stopFirst) r .done lasting.getting (by simp)

theorem fail_early (kind : Kind) (r : Nat) (s shared : Shared) (was phase : Phase) (torn : Bool)
    (unswapped : was.pending kind = false) (advanced : advance kind r s was (.fail torn) = some (shared, phase)) :
    shared = s ∧ phase.pending kind = false ∧ phase ≠ .getting := by
  cases was <;> simp only [advance, Option.some.injEq, Prod.mk.injEq, reduceCtorEq] at advanced
  case getting => exact ⟨advanced.1.symm, by rw [← advanced.2]; simp [Phase.pending]⟩
  case reading old => exact ⟨advanced.1.symm, by rw [← advanced.2]; simp [Phase.pending]⟩
  case loading old clc => exact ⟨advanced.1.symm, by rw [← advanced.2]; simp [Phase.pending]⟩
  case plugging old clc cl => exact ⟨advanced.1.symm, by rw [← advanced.2]; simp [Phase.pending]⟩
  case persisting => simp [Phase.pending] at unswapped
  case writing clc => simp [Phase.pending] at unswapped

theorem lasting_step (next : System) (event : Event) (lasting : Lasting kinds last t) (undisturbed : Undisturbed t event)
    (completes : ∀ torn, event.action = .fail torn → (t.phases event.request).pending (kinds event.request) = false)
    (stepped : step kinds t event = some next) :
    Lasting kinds (if event.action = .replace then some next.holder.classLoaderConfig else last) next := by
  have writing := step_writing_holder kinds t event next lasting.writing undisturbed stepped
  obtain ⟨r, action⟩ := event
  simp only [step, Option.map_eq_some_iff, Prod.exists] at stepped
  obtain ⟨shared, phase, advanced, rfl⟩ := stepped
  have moved := advance_moved _ _ _ _ _ _ _ advanced
  simp only at completes ⊢
  have frame := lasting_frame kinds last t r
  generalize before : t.phases r = was at moved completes advanced frame
  cases moved with
  | begin =>
      refine frame _ _ lasting writing rfl rfl ?_ ?_
      · cases kinds r <;> rfl
      · cases kinds r <;> simp [Kind.start]
  | get =>
      have kind := lasting.getting r before
      exact frame _ _ lasting writing rfl rfl (by rw [kind]; rfl) (by simp)
  | stop old =>
      refine frame _ _ lasting writing rfl rfl ?_ ?_
      · cases kinds r <;> rfl
      · cases kinds r <;> simp [Kind.stopped]
  | read old clc => exact frame _ _ lasting writing rfl rfl rfl (by simp)
  | load old clc cl => exact frame _ _ lasting writing rfl rfl rfl (by simp)
  | plug old clc cl plugged fresh => exact frame _ _ lasting writing rfl rfl rfl (by simp)
  | replace old new => exact lasting_replace kinds last t r new lasting writing
  | readHolder => exact frame _ _ lasting writing rfl rfl rfl (by simp)
  | write clc => exact lasting_write kinds last t r clc before lasting writing
  | fail phase torn swapped file fails =>
      have early := completes torn rfl
      obtain ⟨same, unpending, notGetting⟩ := fail_early (kinds r) r t.toShared _ was _ torn early advanced
      exact frame _ _ lasting writing (congrArg Shared.holder same) (congrArg Shared.file same) (unpending.trans early.symm)
        (fun getting => absurd getting notGetting)

-- Every config that a process has to do with is one of these.
structure Within (known : ClassLoaderConfig → Prop) : Prop where
  holder : known t.holder.classLoaderConfig
  file : ∀ clc, t.file = some clc → known clc
  writing : ∀ r clc, t.phases r = .writing clc → known clc

theorem fail_within (known : ClassLoaderConfig → Prop) (kind : Kind) (r : Nat) (s shared : Shared) (was phase : Phase) (torn : Bool)
    (file : ∀ clc, s.file = some clc → known clc) (advanced : advance kind r s was (.fail torn) = some (shared, phase)) :
    shared.holder = s.holder ∧ (∀ clc, shared.file = some clc → known clc) ∧ ∀ clc, phase ≠ .writing clc := by
  cases was <;> simp only [advance, Option.some.injEq, Prod.mk.injEq, reduceCtorEq] at advanced
  case writing written =>
    obtain ⟨rfl, rfl⟩ := advanced
    refine ⟨rfl, ?_, by simp⟩
    cases torn with
    | true => simp
    | false => exact file
  all_goals
    obtain ⟨rfl, rfl⟩ := advanced
    exact ⟨rfl, file, by simp⟩

theorem within_step (known : ClassLoaderConfig → Prop) (next : System) (event : Event) (within : Within t known)
    (puts : event.action = .replace → known next.holder.classLoaderConfig) (stepped : step kinds t event = some next) :
    Within next known := by
  obtain ⟨r, action⟩ := event
  simp only [step, Option.map_eq_some_iff, Prod.exists] at stepped
  obtain ⟨shared, phase, advanced, rfl⟩ := stepped
  have moved := advance_moved _ _ _ _ _ _ _ advanced
  simp only at puts
  have phases := fun own => each_phase kinds t (fun _ phase => ∀ clc, phase = .writing clc → known clc) r phase within.writing own
  generalize before : t.phases r = was at moved advanced
  cases moved with
  | begin => exact ⟨within.holder, within.file, phases (by cases kinds r <;> simp [Kind.start])⟩
  | stop old => exact ⟨within.holder, within.file, phases (by cases kinds r <;> simp [Kind.stopped])⟩
  | replace old new => exact ⟨puts rfl, within.file, phases (by cases kinds r <;> simp [Kind.swapped])⟩
  | readHolder =>
      refine ⟨within.holder, within.file, phases ?_⟩
      rintro clc same
      rw [← Phase.writing.inj same]
      exact within.holder
  | write clc =>
      refine ⟨within.holder, ?_, phases (by simp)⟩
      rintro other same
      rw [← Option.some.inj same]
      exact within.writing r clc before
  | fail phase torn swapped file fails =>
      obtain ⟨holder, named, notWriting⟩ := fail_within known _ _ _ _ _ _ torn within.file advanced
      exact ⟨within.holder, named, phases (fun clc same => absurd same (notWriting clc))⟩
  | _ => exact ⟨within.holder, within.file, phases (by simp)⟩

end Steps

def Server.Names (s : Server) (known : ClassLoaderConfig → Prop) : Prop :=
  match s.process with
  | .down left => ∀ clc, left = some clc → known clc
  | .up t => Within t known

section Lives

variable (kinds : Nat → Nat → Kind) (file : Option ClassLoaderConfig) (s : Server)

def Server.Put (clc : ClassLoaderConfig) : Prop := clc = dummy.classLoaderConfig ∨ clc ∈ s.puts ∨ file = some clc

theorem boot_put (left : Option ClassLoaderConfig) (loaded : Option ClassLoader) (known : ClassLoaderConfig → Prop)
    (isDummy : known dummy.classLoaderConfig) (named : ∀ clc, left = some clc → known clc) :
    known (boot left loaded).classLoaderConfig := by
  cases left with
  | none => exact isDummy
  | some clc =>
      cases loaded with
      | none => exact isDummy
      | some cl => exact named clc rfl

theorem leaves_file (t : System) (writer : Option Nat) (left : Option ClassLoaderConfig) (leaving : leaves t writer = some left) :
    left = t.file ∨ left = none ∧ ∃ r clc, t.phases r = .writing clc := by
  cases writer with
  | none => exact .inl (Option.some.inj leaving).symm
  | some r =>
      simp only [leaves] at leaving
      split at leaving
      · rename_i clc writing
        exact .inr ⟨(Option.some.inj leaving).symm, r, clc, writing⟩
      · simp at leaving

theorem server_step_names (event : ServerEvent) (next : Server) (names : s.Names (s.Put file))
    (stepped : serverStep kinds s event = some next) : next.Names (next.Put file) := by
  cases event with
  | boot loaded =>
      simp only [serverStep] at stepped
      split at stepped
      · rename_i left down
        rw [Option.some.injEq] at stepped
        subst stepped
        simp only [Server.Names, down] at names
        refine ⟨boot_put left loaded _ (.inl rfl) names, names, ?_⟩
        simp [requests]
      · simp at stepped
  | request event =>
      simp only [serverStep] at stepped
      split at stepped
      · simp at stepped
      · rename_i t up
        simp only [Option.map_eq_some_iff] at stepped
        obtain ⟨after, moved, rfl⟩ := stepped
        simp only [Server.Names, up] at names
        have grows : ∀ clc, s.Put file clc → Server.Put file
            { s with process := .up after, puts := s.puts ++ if event.action = .replace then [after.holder.classLoaderConfig] else [] }
            clc := by
          rintro clc (isDummy | put | first)
          · exact .inl isDummy
          · exact .inr (.inl (List.mem_append_left _ put))
          · exact .inr (.inr first)
        refine within_step (kinds s.life) t _ after event ⟨grows _ names.holder, fun clc same => grows clc (names.file clc same),
          fun r clc writing => grows clc (names.writing r clc writing)⟩ ?_ moved
        intro replaces
        exact .inr (.inl (by simp [replaces]))
  | kill writer =>
      simp only [serverStep] at stepped
      split at stepped
      · simp at stepped
      · rename_i t up
        simp only [Option.map_eq_some_iff] at stepped
        obtain ⟨left, leaving, rfl⟩ := stepped
        simp only [Server.Names, up] at names
        rcases leaves_file t writer left leaving with rfl | ⟨rfl, _⟩
        · exact names.file
        · intro clc same
          cases same

theorem server_step_durable (event : ServerEvent) (next : Server) (durable : Durable kinds file s) (inTurn : InTurn kinds s event)
    (stepped : serverStep kinds s event = some next) : Durable kinds file next := by
  cases event with
  | boot loaded =>
      simp only [serverStep] at stepped
      split at stepped
      · rename_i left down
        rw [Option.some.injEq] at stepped
        subst stepped
        simp only [Durable, down] at durable
        refine ⟨?_, .inl durable, ?_, ?_⟩ <;> simp [requests, Phase.pending, WritingHolder]
      · simp at stepped
  | request event =>
      simp only [serverStep] at stepped
      split at stepped
      · simp at stepped
      · rename_i t up
        simp only [Option.map_eq_some_iff] at stepped
        obtain ⟨after, moved, rfl⟩ := stepped
        simp only [Durable, up] at durable
        obtain ⟨undisturbed, completes⟩ := inTurn t up
        have lasting := lasting_step (kinds s.life) (s.lastPut file) t after event durable undisturbed completes moved
        by_cases replaces : event.action = .replace
        · simpa [Durable, Server.lastPut, replaces] using lasting
        · simpa [Durable, Server.lastPut, replaces] using lasting
  | kill writer =>
      simp only [serverStep] at stepped
      split at stepped
      · simp at stepped
      · rename_i t up
        simp only [Option.map_eq_some_iff] at stepped
        obtain ⟨left, leaving, rfl⟩ := stepped
        simp only [Durable, up] at durable
        have settled := inTurn t up
        have same : left = t.file := by
          rcases leaves_file t writer left leaving with same | ⟨_, r, clc, writing⟩
          · exact same
          · have pending := settled r
            simp [writing, Phase.pending] at pending
        rcases durable.written with written | ⟨r, pending⟩
        · exact same.trans written
        · simp [settled r] at pending

theorem pending_active (kind : Kind) (phase : Phase) (pending : phase.pending kind = true) : phase.active = true := by
  cases phase <;> first | rfl | simp [Phase.pending] at pending

-- What the next process starts with is the root that was put last.
structure Restarts : Prop where
  left : ∀ left, s.process = .down left → left = s.lastPut file
  settled : ∀ t, s.process = .up t → Quiet t → t.file = s.lastPut file
  boots : ∀ cl next, serverStep kinds s (.boot (some cl)) = some next → ∃ t, next.process = .up t ∧
    t.holder.classLoaderConfig = (s.lastPut file).getD dummy.classLoaderConfig

theorem durable_restarts (durable : Durable kinds file s) : Restarts kinds file s := by
  have downs : ∀ left, s.process = .down left → left = s.lastPut file := by
    intro left down
    simpa only [Durable, down] using durable
  refine ⟨downs, ?_, ?_⟩
  · intro t up quiet
    simp only [Durable, up] at durable
    rcases durable.written with written | ⟨r, pending⟩
    · exact written
    · have active := pending_active _ _ pending
      simp [quiet r] at active
  · intro cl next stepped
    simp only [serverStep] at stepped
    split at stepped
    · rename_i left down
      rw [Option.some.injEq] at stepped
      subst stepped
      refine ⟨_, rfl, ?_⟩
      rw [← downs left down]
      cases left <;> rfl
    · simp at stepped

-- Over any number of lives, with requests that interleave, fail and are killed in any way, no root runs that was not
-- put. Where they take turns, each life goes on with the root that was put last.
theorem restart_keeps_root (events : List ServerEvent) (ran : (server kinds file).run (server kinds file).initial events = some s) :
    s.Names (s.Put file) ∧ ((server kinds file).Meets (InTurn kinds) (server kinds file).initial events → Restarts kinds file s) := by
  have first : (server kinds file).initial.Names ((server kinds file).initial.Put file) :=
    fun clc same => .inr (.inr same)
  have start : Durable kinds file (server kinds file).initial := rfl
  refine ⟨run_keeps (server kinds file) (fun s => s.Names (s.Put file)) (fun s event next => server_step_names kinds file s event next)
    _ s events first ran, fun inTurn => durable_restarts kinds file s ?_⟩
  exact run_keeps_guarded (server kinds file) (InTurn kinds) (Durable kinds file)
    (fun s event next durable => server_step_durable kinds file s event next durable) _ s events start inTurn ran

end Lives

-- One request, in the order of the source.
def soleReplacement (clc : ClassLoaderConfig) : List Event :=
  [⟨0, .begin⟩, ⟨0, .read clc⟩, ⟨0, .load 1⟩, ⟨0, .plug 1⟩, ⟨0, .replace⟩, ⟨0, .stop⟩, ⟨0, .readHolder⟩, ⟨0, .write⟩]

-- A root is put, the process is killed, and the next one is started.
def putAndKill : List ServerEvent :=
  [.boot none] ++ (soleReplacement ⟨[], "new"⟩).map .request ++ [.kill none, .boot (some 2)]

theorem restart_keeps_root_new :
    ∃ s, (server (fun _ _ => .replaceFirst) none).run (server (fun _ _ => .replaceFirst) none).initial putAndKill = some s ∧
      Restarts (fun _ _ => .replaceFirst) none s := by
  have ran : ((server (fun _ _ => .replaceFirst) none).run (server (fun _ _ => .replaceFirst) none).initial putAndKill).isSome := by
    decide +kernel
  obtain ⟨s, run⟩ := Option.isSome_iff_exists.mp ran
  refine ⟨s, run, (restart_keeps_root (fun _ _ => .replaceFirst) none s putAndKill run).2 ?_⟩
  simp [Machine.Meets, InTurn, server, serverStep, putAndKill, soleReplacement, boot, dummy, leaves, requests, step, advance,
    Fresh, Kind.start, Kind.swapped, Kind.stopped, Undisturbed, Phase.pending]
  refine ⟨fun r clc => ?_, fun r => ?_⟩
  · by_cases same : r = 0 <;> simp [Function.update, same]
  · by_cases same : r = 0 <;> simp [Function.update, same]

end Toolbox8.RootContext
