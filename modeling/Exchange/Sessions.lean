import Exchange.Reassembly
import Exchange.Runs

/-! The sessions of the server do not touch one another. While the kernel hands
out descriptors that are not in use, every session goes through `run` as if it
were alone: what the handler is given from it depends on what arrived on it, not
on the other sessions, the order in which they are polled, or what they send. -/
namespace Exchange.Sessions
open Frames Reassembly
open OrderEntryServer (drainAt drainPolled step)

/-- Between passes every connection is open and no descriptor is used twice. -/
structure Sound (server : OrderEntryServer) : Prop where
  isOpen : ∀ client ∈ server.conns, client.conn.isOpen = true
  distinct : (server.conns.map Client.fd).Nodup

/-- The kernel accepts connections under descriptors that are not in use. -/
def KernelFresh (server : OrderEntryServer) : ServerAction → Prop
  | .pass kernel => kernel.accepted.Nodup ∧ ∀ fd ∈ kernel.accepted, fd ∉ server.conns.map Client.fd
  | .start | .stop => True

instance (server : OrderEntryServer) : ∀ action, Decidable (KernelFresh server action)
  | .pass _ => inferInstanceAs (Decidable (_ ∧ _))
  | .start | .stop => isTrue trivial

/-- The commands the handler was given from a descriptor. -/
def commandsOn (fd : Nat) (events : List ServerEvent) : List Command :=
  events.flatMap fun
    | .drained other _ commands => if other = fd then commands else []
    | .accepted _ => []

/-- What the kernel has for a descriptor in these passes. -/
def offered (fd : Nat) (passes : List Poll) : List Arrival :=
  passes.filterMap fun kernel => if kernel.ready then kernel.arrivals fd else none

theorem commandsOn_append (fd : Nat) (first second : List ServerEvent) :
    commandsOn fd (first ++ second) = commandsOn fd first ++ commandsOn fd second :=
  List.flatMap_append

variable {server : OrderEntryServer} {client : Client} {clients : List Client} {fd : Nat}
  {arrivals : Nat → Option Arrival} {polled : List Nat} {kernel : Poll}

/-! ## One pass -/

/-- A client after a pass that polled these descriptors. -/
def visited (arrivals : Nat → Option Arrival) (polled : List Nat) (client : Client) : Client :=
  if client.fd ∈ polled then
    match arrivals client.fd with
    | some arrival => { client with conn := (drainConnection client.conn arrival).1 }
    | none => client
  else client

@[simp] theorem visited_fd (client : Client) : (visited arrivals polled client).fd = client.fd := by
  unfold visited
  split
  · split <;> rfl
  · rfl

/-- Draining a descriptor changes the one client that has it. -/
theorem drainAt_eq (arrival : Arrival) (distinct : (clients.map Client.fd).Nodup)
    (member : client ∈ clients) (isOpen : client.conn.isOpen = true) :
    drainAt client.fd arrival clients =
      (clients.map (fun other =>
          if other.fd = client.fd then { other with conn := (drainConnection other.conn arrival).1 } else other),
        (drainConnection client.conn arrival).2) := by
  induction clients with
  | nil => cases member
  | cons head clients ih =>
    rw [List.map_cons, List.nodup_cons] at distinct
    rcases List.mem_cons.mp member with rfl | later
    · have others : ∀ other ∈ clients, other.fd ≠ client.fd := fun other inside same =>
        distinct.1 (same ▸ List.mem_map_of_mem inside)
      have kept : clients.map (fun other =>
          if other.fd = client.fd then { other with conn := (drainConnection other.conn arrival).1 } else other) =
            clients := by
        rw [List.map_congr_left fun other inside => if_neg (others other inside), List.map_id']
      rw [drainAt, if_pos ⟨isOpen, rfl⟩, List.map_cons, if_pos rfl, kept]
    · have away : head.fd ≠ client.fd := fun same => distinct.1 (same ▸ List.mem_map_of_mem later)
      rw [drainAt, if_neg (fun both => away both.2), ih distinct.2 later, List.map_cons, if_neg away]

/-- What the handler is given from a client that was polled. -/
def given (arrivals : Nat → Option Arrival) (polled : List Nat) (client : Client) : List Command :=
  if client.fd ∈ polled then
    match arrivals client.fd with
    | some arrival => (drainConnection client.conn arrival).2
    | none => []
  else []

/-- Every polled client is visited once, and no other. -/
theorem drainPolled_eq (distinct : (clients.map Client.fd).Nodup) (once : polled.Nodup)
    (known : ∀ fd ∈ polled, ∃ client ∈ clients, client.fd = fd ∧ client.conn.isOpen = true) :
    (drainPolled arrivals polled clients).1 = clients.map (visited arrivals polled) ∧
      (∀ client ∈ clients, commandsOn client.fd (drainPolled arrivals polled clients).2 =
        given arrivals polled client) ∧
      ∀ fd, fd ∉ polled → commandsOn fd (drainPolled arrivals polled clients).2 = [] := by
  induction polled generalizing clients with
  | nil =>
    refine ⟨?_, fun client _ => by simp [drainPolled, commandsOn, given], fun fd _ => rfl⟩
    rw [drainPolled, List.map_congr_left (fun client _ => show visited arrivals [] client = client by simp [visited]),
      List.map_id']
  | cons own polled ih =>
    rw [List.nodup_cons] at once
    cases arrived : arrivals own with
    | none =>
      obtain ⟨state, each, others⟩ := ih distinct once.2 fun fd member => known fd (List.mem_cons_of_mem _ member)
      simp only [drainPolled, arrived]
      refine ⟨?_, fun client member => ?_,
        fun fd away => others fd fun member => away (List.mem_cons_of_mem _ member)⟩
      · rw [state]
        refine List.map_congr_left fun client _ => ?_
        by_cases here : client.fd = own <;> simp [visited, here, arrived, once.1]
      · rw [each client member]
        by_cases here : client.fd = own <;> simp [given, here, arrived, once.1]
    | some arrival =>
      obtain ⟨target, inside, rfl, isOpen⟩ := known own (by simp)
      have drained := drainAt_eq arrival distinct inside isOpen
      have fds : (drainAt target.fd arrival clients).1.map Client.fd = clients.map Client.fd := by
        rw [drained, List.map_map]
        refine List.map_congr_left fun other _ => ?_
        by_cases here : other.fd = target.fd <;> simp [here]
      have kept : ∀ other ∈ clients, other.fd ≠ target.fd →
          other ∈ (drainAt target.fd arrival clients).1 := by
        intro other member away
        rw [drained]
        exact List.mem_map.mpr ⟨other, member, if_neg away⟩
      obtain ⟨state, each, others⟩ :=
          @ih (drainAt target.fd arrival clients).1 (by rw [fds]; exact distinct) once.2 (by
        intro fd member
        obtain ⟨other, held, rfl, open_⟩ := known fd (List.mem_cons_of_mem _ member)
        exact ⟨other, kept other held fun same => once.1 (same ▸ member), rfl, open_⟩)
      simp only [drainPolled, arrived]
      refine ⟨?_, fun client member => ?_, fun fd away => ?_⟩
      · rw [state, drained, List.map_map]
        refine List.map_congr_left fun client _ => ?_
        by_cases here : client.fd = target.fd
        · simp [visited, here, arrived, once.1]
        · simp [visited, here]
      · by_cases here : client.fd = target.fd
        · obtain rfl : client = target := List.inj_on_of_nodup_map distinct member inside here
          have later := others client.fd once.1
          simp only [commandsOn, List.flatMap_cons, ↓reduceIte] at later ⊢
          rw [later, drained]
          simp [given, arrived]
        · have later := each client (kept client member here)
          simp only [commandsOn, List.flatMap_cons, if_neg (Ne.symm here), List.nil_append] at later ⊢
          rw [later]
          simp [given, here]
      · have later := others fd fun member => away (List.mem_cons_of_mem _ member)
        have apart : target.fd ≠ fd := fun same => away (same ▸ List.mem_cons_self)
        simp only [commandsOn, List.flatMap_cons, if_neg apart, List.nil_append] at later ⊢
        exact later

theorem polled_eq (sound : Sound server) :
    (server.conns.filter fun client => client.conn.isOpen).map Client.fd = server.conns.map Client.fd := by
  rw [List.filter_eq_self.mpr sound.isOpen]

/-- A pass visits every client it finds, and keeps those that are still open
together with the new ones. -/
theorem pass_eq (sound : Sound server) (fresh : KernelFresh server (.pass kernel)) (ready : kernel.ready = true) :
    (server.pass kernel).1.conns = (server.conns.map (visited kernel.arrivals (server.conns.map Client.fd))).filter
        (fun client => client.conn.isOpen) ++ kernel.accepted.map Client.accepted ∧
      (∀ client ∈ server.conns, commandsOn client.fd (server.pass kernel).2 =
        given kernel.arrivals (server.conns.map Client.fd) client) ∧
      ∀ fd, fd ∉ server.conns.map Client.fd → commandsOn fd (server.pass kernel).2 = [] := by
  obtain ⟨once, unused⟩ := fresh
  have newFds : (kernel.accepted.map Client.accepted).map Client.fd = kernel.accepted := by
    simp [Function.comp_def, Client.accepted]
  have distinct : ((server.conns ++ kernel.accepted.map Client.accepted).map Client.fd).Nodup := by
    rw [List.map_append, newFds, List.nodup_append]
    exact ⟨sound.distinct, once, fun old member new accepted same => unused new accepted (same ▸ member)⟩
  have known : ∀ fd ∈ server.conns.map Client.fd,
      ∃ client ∈ server.conns ++ kernel.accepted.map Client.accepted, client.fd = fd ∧
        client.conn.isOpen = true := by
    intro fd member
    obtain ⟨client, inside, rfl⟩ := List.mem_map.mp member
    exact ⟨client, List.mem_append_left _ inside, rfl, sound.isOpen client inside⟩
  obtain ⟨state, each, others⟩ :=
    @drainPolled_eq _ kernel.arrivals _ distinct sound.distinct known
  have accepting : ∀ fd, commandsOn fd (kernel.accepted.map ServerEvent.accepted) = [] := by
    intro fd
    simp [commandsOn, List.flatMap_map]
  simp only [OrderEntryServer.pass, ready, ↓reduceIte, polled_eq sound]
  refine ⟨?_, fun client member => ?_, fun fd away => ?_⟩
  · rw [state, List.map_append, List.filter_append]
    congr 1
    rw [List.map_map]
    have same : kernel.accepted.map (visited kernel.arrivals (server.conns.map Client.fd) ∘ Client.accepted) =
        kernel.accepted.map Client.accepted := by
      refine List.map_congr_left fun fd accepted => ?_
      exact if_neg (unused fd accepted)
    rw [same, List.filter_eq_self.mpr]
    intro client member
    obtain ⟨fd, -, rfl⟩ := List.mem_map.mp member
    rfl
  · rw [commandsOn_append, accepting, List.nil_append]
    exact each client (List.mem_append_left _ member)
  · rw [commandsOn_append, accepting, List.nil_append]
    exact others fd away

theorem pass_sound (sound : Sound server) (fresh : KernelFresh server (.pass kernel)) :
    Sound (server.pass kernel).1 := by
  by_cases ready : kernel.ready = true
  · obtain ⟨state, -, -⟩ := pass_eq sound fresh ready
    have kept : ((server.conns.map (visited kernel.arrivals (server.conns.map Client.fd))).filter
        fun client => client.conn.isOpen).map Client.fd |>.Sublist (server.conns.map Client.fd) := by
      have same : (server.conns.map (visited kernel.arrivals (server.conns.map Client.fd))).map Client.fd =
          server.conns.map Client.fd := by
        rw [List.map_map]
        exact List.map_congr_left fun client _ => visited_fd client
      exact (List.Sublist.map Client.fd List.filter_sublist).trans (by rw [same])
    constructor
    · rw [state]
      intro client member
      rcases List.mem_append.mp member with old | new
      · exact (List.mem_filter.mp old).2
      · obtain ⟨fd, -, rfl⟩ := List.mem_map.mp new
        rfl
    · rw [state, List.map_append, List.map_map, List.nodup_append]
      refine ⟨sound.distinct.sublist kept, by simpa [Function.comp_def, Client.accepted] using fresh.1, ?_⟩
      rintro old member new accepted rfl
      have accepted_ : old ∈ kernel.accepted := by simpa [Function.comp_def, Client.accepted] using accepted
      exact fresh.2 old accepted_ (kept.subset member)
  · simp only [OrderEntryServer.pass, ready, Bool.false_eq_true, ↓reduceIte]
    exact sound

theorem step_sound (sound : Sound server) (action : ServerAction) (fresh : KernelFresh server action) :
    ∃ next events, step server action = .ok (next, events) ∧ Sound next := by
  cases action with
  | start => exact ⟨_, _, rfl, sound.isOpen, sound.distinct⟩
  | stop =>
    by_cases running : server.running = true
    · exact ⟨_, _, by rw [step, if_pos running], by simp, by simp⟩
    · exact ⟨_, _, by rw [step, if_neg running], sound⟩
  | pass kernel =>
    by_cases running : server.running = true
    · exact ⟨_, _, by rw [step, if_pos running], pass_sound sound fresh⟩
    · exact ⟨_, _, by rw [step, if_neg running], sound⟩

/-! ## A session -/

theorem step_pass (running : server.running = true) (kernel : Poll) :
    step server (.pass kernel) = .ok ((server.pass kernel).1, (server.pass kernel).2) := by
  rw [step, if_pos running]

theorem pass_running (kernel : Poll) : (server.pass kernel).1.running = server.running := by
  unfold OrderEntryServer.pass
  split <;> rfl

theorem pass_idle (idle : kernel.ready ≠ true) : server.pass kernel = (server, []) := by
  simp only [OrderEntryServer.pass, idle, Bool.false_eq_true, ↓reduceIte]

/-- A client after one pass: it is gone once its connection is closed. -/
theorem client_after (sound : Sound server) (fresh : KernelFresh server (.pass kernel)) (ready : kernel.ready = true)
    (member : client ∈ server.conns) :
    ((visited kernel.arrivals (server.conns.map Client.fd) client).conn.isOpen = true →
      visited kernel.arrivals (server.conns.map Client.fd) client ∈ (server.pass kernel).1.conns) ∧
    ((visited kernel.arrivals (server.conns.map Client.fd) client).conn.isOpen = false →
      client.fd ∉ (server.pass kernel).1.conns.map Client.fd) := by
  obtain ⟨state, -, -⟩ := pass_eq sound fresh ready
  rw [state]
  refine ⟨fun isOpen => ?_, fun closed inside => ?_⟩
  · exact List.mem_append_left _ (List.mem_filter.mpr ⟨List.mem_map_of_mem member, isOpen⟩)
  · obtain ⟨other, held, same⟩ := List.mem_map.mp inside
    rcases List.mem_append.mp held with old | new
    · obtain ⟨visited_, isOpen⟩ := List.mem_filter.mp old
      obtain ⟨before, present, rfl⟩ := List.mem_map.mp visited_
      rw [visited_fd] at same
      obtain rfl : before = client := List.inj_on_of_nodup_map sound.distinct present member same
      rw [closed] at isOpen
      cases isOpen
    · obtain ⟨fd, accepted, rfl⟩ := List.mem_map.mp new
      have inUse : fd ∈ server.conns.map Client.fd := List.mem_map.mpr ⟨client, member, same.symm⟩
      exact fresh.2 fd accepted inUse

/-- Nothing is heard of a descriptor while it is not in use. -/
theorem unused_is_silent (sound : Sound server) (running : server.running = true)
    (unused : fd ∉ server.conns.map Client.fd) {kernels : List Poll}
    (fresh : Meets step KernelFresh server (kernels.map .pass))
    (away : ∀ kernel ∈ kernels, fd ∉ kernel.accepted) :
    ∃ final outputs, run step server (kernels.map .pass) = .ok (final, outputs) ∧
      commandsOn fd outputs.flatten = [] ∧ fd ∉ final.conns.map Client.fd := by
  induction kernels generalizing server with
  | nil => exact ⟨server, [], rfl, rfl, unused⟩
  | cons kernel kernels ih =>
    have later := fresh.2
    rw [step_pass running] at later
    have still : fd ∉ (server.pass kernel).1.conns.map Client.fd ∧ commandsOn fd (server.pass kernel).2 = [] := by
      by_cases ready : kernel.ready = true
      · obtain ⟨state, -, others⟩ := pass_eq sound fresh.1 ready
        refine ⟨fun inside => ?_, others fd unused⟩
        rw [state, List.map_append, List.mem_append] at inside
        rcases inside with old | new
        · obtain ⟨client, kept, rfl⟩ := List.mem_map.mp old
          obtain ⟨before, present, rfl⟩ := List.mem_map.mp (List.mem_of_mem_filter kept)
          rw [visited_fd] at unused
          exact unused (List.mem_map_of_mem present)
        · have accepted : fd ∈ kernel.accepted := by simpa [Function.comp_def, Client.accepted] using new
          exact away kernel (by simp) accepted
      · rw [pass_idle ready]
        exact ⟨unused, rfl⟩
    obtain ⟨final, outputs, ran, silent, gone⟩ :=
      ih (pass_sound sound fresh.1) ((pass_running kernel).trans running)
      still.1 later fun kernel member => away kernel (List.mem_cons_of_mem _ member)
    refine ⟨final, (server.pass kernel).2 :: outputs, ?_, ?_, gone⟩
    · rw [List.map_cons, Runs.run_cons (step_pass running kernel), ran]
      rfl
    · rw [List.flatten_cons, commandsOn_append, still.2, silent]
      rfl

/-- Whatever else the server does: a client is served what arrives on it. -/
theorem client_is_served (sound : Sound server) (running : server.running = true) (member : client ∈ server.conns)
    {kernels : List Poll} (fresh : Meets step KernelFresh server (kernels.map .pass))
    (away : ∀ kernel ∈ kernels, client.fd ∉ kernel.accepted) :
    ∃ final outputs, run step server (kernels.map .pass) = .ok (final, outputs) ∧
      commandsOn client.fd outputs.flatten = (serve client.conn (offered client.fd kernels)).2 ∧
      ((serve client.conn (offered client.fd kernels)).1.isOpen = true →
        { client with conn := (serve client.conn (offered client.fd kernels)).1 } ∈ final.conns) ∧
      ((serve client.conn (offered client.fd kernels)).1.isOpen = false →
        client.fd ∉ final.conns.map Client.fd) := by
  induction kernels generalizing server client with
  | nil =>
    refine ⟨server, [], rfl, rfl, fun _ => member, fun closed => ?_⟩
    have isOpen := sound.isOpen client member
    rw [show serve client.conn (offered client.fd []) = (client.conn, []) from rfl] at closed
    rw [isOpen] at closed
    cases closed
  | cons kernel kernels ih =>
    have later := fresh.2
    rw [step_pass running] at later
    have isOpen := sound.isOpen client member
    have rest : ∀ kernel ∈ kernels, client.fd ∉ kernel.accepted :=
      fun kernel inside => away kernel (List.mem_cons_of_mem _ inside)
    have nextSound := pass_sound sound fresh.1
    have nextRunning : (server.pass kernel).1.running = true := (pass_running kernel).trans running
    -- What a run of the later passes shows is shown by the whole run.
    have whole : ∀ {final outputs}, run step (server.pass kernel).1 (kernels.map .pass) = .ok (final, outputs) →
        run step server ((kernel :: kernels).map .pass) = .ok (final, (server.pass kernel).2 :: outputs) := by
      intro final outputs ran
      rw [List.map_cons, Runs.run_cons (step_pass running kernel), ran]
      rfl
    by_cases ready : kernel.ready = true
    · obtain ⟨-, each, -⟩ := pass_eq sound fresh.1 ready
      have heard := each client member
      have after := client_after sound fresh.1 ready member
      have polled : client.fd ∈ server.conns.map Client.fd := List.mem_map_of_mem member
      cases arrived : kernel.arrivals client.fd with
      | none =>
        simp only [visited, given, polled, ↓reduceIte, arrived] at after heard
        obtain ⟨final, outputs, ran, commands, stays⟩ := ih nextSound nextRunning (after.1 isOpen) later rest
        refine ⟨final, _, whole ran, ?_⟩
        have nothing : offered client.fd (kernel :: kernels) = offered client.fd kernels := by
          simp [offered, ready, arrived]
        rw [List.flatten_cons, commandsOn_append, heard, List.nil_append, nothing]
        exact ⟨commands, stays⟩
      | some arrival =>
        simp only [visited, given, polled, ↓reduceIte, arrived] at after heard
        have next : offered client.fd (kernel :: kernels) = arrival :: offered client.fd kernels := by
          simp [offered, ready, arrived]
        have served : serve client.conn (arrival :: offered client.fd kernels) =
            ((serve (drainConnection client.conn arrival).1 (offered client.fd kernels)).1,
              (drainConnection client.conn arrival).2 ++
                (serve (drainConnection client.conn arrival).1 (offered client.fd kernels)).2) := by
          rw [serve, if_pos isOpen]
        rw [next, served]
        cases stands : (drainConnection client.conn arrival).1.isOpen with
        | true =>
          obtain ⟨final, outputs, ran, commands, stays⟩ := ih nextSound nextRunning (after.1 stands) later rest
          refine ⟨final, _, whole ran, ?_, stays⟩
          rw [List.flatten_cons, commandsOn_append, heard, commands]
        | false =>
          obtain ⟨final, outputs, ran, silent, gone⟩ :=
            unused_is_silent nextSound nextRunning (after.2 stands) later rest
          rw [Reassembly.serve_closed stands]
          refine ⟨final, _, whole ran, ?_, fun open_ => ?_, fun _ => gone⟩
          · rw [List.flatten_cons, commandsOn_append, heard, silent]
          · rw [stands] at open_
            cases open_
    · rw [pass_idle ready] at later whole
      obtain ⟨final, outputs, ran, commands, stays⟩ := ih sound running member later rest
      refine ⟨final, _, whole ran, ?_⟩
      have nothing : offered client.fd (kernel :: kernels) = offered client.fd kernels := by
        simp [offered, ready]
      rw [List.flatten_cons, List.nil_append, nothing]
      exact ⟨commands, stays⟩

/-! ## Isolation -/

theorem sound_new : Sound {} := ⟨by simp, by simp⟩

/-- Every run keeps the server sound. -/
theorem runs_sound {actions : List ServerAction} (fresh : Meets step KernelFresh {} actions) :
    ∃ server outputs, run step {} actions = .ok (server, outputs) ∧ Sound server :=
  Runs.run_invariant KernelFresh Sound (fun _ action sound fresh => step_sound sound action fresh) sound_new fresh

/-- The pass that accepts a connection, and the later ones: the descriptor has
one session in them, and it goes as if it were served by itself. -/
theorem session_run (sound : Sound server) (running : server.running = true) {entry : Poll} {kernels : List Poll}
    (fresh : Meets step KernelFresh server (.pass entry :: kernels.map .pass)) (ready : entry.ready = true)
    (accepted : fd ∈ entry.accepted) (away : ∀ kernel ∈ kernels, fd ∉ kernel.accepted) :
    ∃ final outputs, run step server (.pass entry :: kernels.map .pass) = .ok (final, outputs) ∧
      commandsOn fd outputs.flatten = (serve {} (offered fd kernels)).2 ∧
      ∀ conn, { fd, conn } ∈ final.conns ↔
        conn = (serve {} (offered fd kernels)).1 ∧ (serve {} (offered fd kernels)).1.isOpen = true := by
  have later := fresh.2
  rw [step_pass running] at later
  obtain ⟨state, -, others⟩ := pass_eq sound fresh.1 ready
  have member : Client.accepted fd ∈ (server.pass entry).1.conns := by
    rw [state]
    exact List.mem_append_right _ (List.mem_map_of_mem accepted)
  have nextSound := pass_sound sound fresh.1
  have nextRunning : (server.pass entry).1.running = true := (pass_running entry).trans running
  obtain ⟨final, outputs, ran, commands, opened, closed⟩ :=
    client_is_served nextSound nextRunning member later away
  have silent := others fd (fresh.1.2 fd accepted)
  obtain ⟨final', outputs', ran', finalSound⟩ := Runs.run_invariant KernelFresh Sound
    (fun _ action sound fresh => step_sound sound action fresh) nextSound later
  rw [ran] at ran'
  cases ran'
  refine ⟨final, (server.pass entry).2 :: outputs, ?_, ?_,
    fun conn => ⟨fun present => ?_, fun ⟨same, isOpen⟩ => ?_⟩⟩
  · rw [Runs.run_cons (step_pass running entry), ran]
    rfl
  · rw [List.flatten_cons, commandsOn_append, silent]
    exact commands
  · cases stands : (serve {} (offered fd kernels)).1.isOpen with
    | true =>
      have one := List.inj_on_of_nodup_map finalSound.distinct present (opened stands) rfl
      exact ⟨congrArg Client.conn one, rfl⟩
    | false => exact absurd (List.mem_map_of_mem present) (closed stands)
  · rw [same]
    exact opened isOpen

/-- For every run of the server, and every connection accepted in a pass after
it: whatever other connections there are, whatever arrives on them and however
the passes go, the handler is given from this one, in order, what a connection
served by itself hands over of the same arrivals; and the connection is in the
server afterwards, as that one stands, exactly if that one is still open. -/
theorem sessions_are_isolated {actions : List ServerAction} {outputs : List (List ServerEvent)}
    (reached : run step {} actions = .ok (server, outputs)) (running : server.running = true) (entry : Poll)
    (kernels : List Poll) (fd : Nat) (fresh : Meets step KernelFresh {} (actions ++ .pass entry :: kernels.map .pass))
    (ready : entry.ready = true) (accepted : fd ∈ entry.accepted)
    (away : ∀ kernel ∈ kernels, fd ∉ kernel.accepted) :
    ∃ final later, run step server (.pass entry :: kernels.map .pass) = .ok (final, later) ∧
      commandsOn fd later.flatten = (serve {} (offered fd kernels)).2 ∧
      ∀ conn, { fd, conn } ∈ final.conns ↔
        conn = (serve {} (offered fd kernels)).1 ∧ (serve {} (offered fd kernels)).1.isOpen = true := by
  obtain ⟨before, after⟩ := (Runs.meets_append reached).mp fresh
  obtain ⟨server', outputs', ran, sound⟩ := runs_sound before
  rw [reached] at ran
  cases ran
  exact session_run sound running after ready accepted away

/-- Passes that accept no one are always possible. -/
theorem fresh_of_none {kernels : List Poll} (none_ : ∀ kernel ∈ kernels, kernel.accepted = []) :
    Meets step KernelFresh server (kernels.map .pass) := by
  have allowed : ∀ action ∈ kernels.map ServerAction.pass, ∀ server, KernelFresh server action := by
    intro action member server
    obtain ⟨kernel, inside, rfl⟩ := List.mem_map.mp member
    simp [KernelFresh, none_ kernel inside]
  exact Runs.meets_weaken (fun server action always => always server) (Runs.meets_of_mem allowed)

/-- Two clients: 5 sends a cancel in three pieces, 6 sends no frame at all and
is dropped in between. -/
def entryOfTwo : Poll := { accepted := [5, 6] }

def passesOfTwo : List Poll :=
  [{ arrivals := fun fd => if fd = 5 then some { chunks := [[2, 0, 0, 0, 9]] } else none },
    { arrivals := fun fd =>
        if fd = 5 then some { chunks := [[0, 0, 0, 0], [0, 0, 0, 0, 7, 120]] }
        else if fd = 6 then some { chunks := [[99, 0, 0, 0, 0, 1, 2, 3, 4]] } else none },
    { arrivals := fun fd => if fd = 5 then some { chunks := [[109, 129, 13]] } else none }]

theorem started : run step {} [.start] = .ok ({ running := true }, [[]]) := rfl

theorem two_clients_fresh :
    Meets step KernelFresh {} ([.start] ++ .pass entryOfTwo :: passesOfTwo.map .pass) := by
  refine ⟨trivial, ⟨by decide, by decide⟩, fresh_of_none ?_⟩
  simp [passesOfTwo]

theorem two_clients_are_isolated :
    ∃ final later, run step { running := true } (.pass entryOfTwo :: passesOfTwo.map .pass) = .ok (final, later) ∧
      commandsOn 5 later.flatten = (serve {} (offered 5 passesOfTwo)).2 ∧
      ∀ conn, { fd := 5, conn } ∈ final.conns ↔
        conn = (serve {} (offered 5 passesOfTwo)).1 ∧ (serve {} (offered 5 passesOfTwo)).1.isOpen = true :=
  sessions_are_isolated started rfl entryOfTwo passesOfTwo 5 two_clients_fresh rfl
    (by decide) (by simp [passesOfTwo])

/-- Arrivals before the end of the stream, as batches of chunks. -/
theorem offered_batches {arrivals : List Arrival} (going : ∀ arrival ∈ arrivals, arrival.endOfStream = false) :
    (arrivals.map Arrival.chunks).map (fun chunks => { chunks := chunks }) = arrivals := by
  rw [List.map_map]
  conv_rhs => rw [← List.map_id arrivals]
  refine List.map_congr_left fun arrival member => ?_
  have goes := going arrival member
  obtain ⟨chunks, endOfStream⟩ := arrival
  cases goes
  rfl

/-- The bytes that arrived, in order. -/
def received (arrivals : List Arrival) : Bytes := (arrivals.map Arrival.chunks).flatten.flatten

/-- A client that is served by itself and has sent a front of its frames. -/
theorem serve_framed {kernels : List Poll} (going : ∀ arrival ∈ offered fd kernels, arrival.endOfStream = false)
    {commands : List Command} (encodable : ∀ command ∈ commands, Encodable command) {wire : Bytes}
    (encoded : encodeAll commands = .ok wire) (arrived : received (offered fd kernels) <+: wire) :
    (serve {} (offered fd kernels)).2 <+: commands ∧
      (received (offered fd kernels) = wire → serve {} (offered fd kernels) = ({}, commands)) := by
  obtain ⟨items, left⟩ := serve_reads ((offered fd kernels).map Arrival.chunks)
  rw [offered_batches going] at items left
  have whole := readAll_encoded encodable encoded
  have taken : (commands.map some).reduceOption = commands := by
    rw [List.reduceOption, List.filterMap_map]
    exact List.filterMap_some
  constructor
  · obtain ⟨more, rfl⟩ := arrived
    rw [Reader.readAll_append] at whole
    have front : (reader.readAll (received (offered fd kernels))).1 <+: commands.map some :=
      ⟨_, (Prod.mk.inj whole).1⟩
    rw [items, ← taken]
    exact front.filterMap id
  · intro all
    have read : reader.readAll ((offered fd kernels).map Arrival.chunks).flatten.flatten =
        (commands.map some, .ok []) := by
      rw [← whole, ← all]
      rfl
    rw [read] at items left
    exact Prod.ext left (items.trans taken)

/-- What a client sends in frames reaches the handler whatever the other clients
send: while a front of the frames has arrived, a front of the commands, and once
all of them have arrived all commands, with the connection open and its buffer
empty. -/
theorem framed_commands_arrive {actions : List ServerAction} {outputs : List (List ServerEvent)}
    (reached : run step {} actions = .ok (server, outputs)) (running : server.running = true) (entry : Poll)
    (kernels : List Poll) (fd : Nat) (fresh : Meets step KernelFresh {} (actions ++ .pass entry :: kernels.map .pass))
    (ready : entry.ready = true) (accepted : fd ∈ entry.accepted)
    (away : ∀ kernel ∈ kernels, fd ∉ kernel.accepted)
    (going : ∀ arrival ∈ offered fd kernels, arrival.endOfStream = false)
    (commands : List Command) (encodable : ∀ command ∈ commands, Encodable command) (wire : Bytes)
    (encoded : encodeAll commands = .ok wire) (arrived : received (offered fd kernels) <+: wire) :
    ∃ final later, run step server (.pass entry :: kernels.map .pass) = .ok (final, later) ∧
      commandsOn fd later.flatten <+: commands ∧
      (received (offered fd kernels) = wire → commandsOn fd later.flatten = commands ∧
        { fd, conn := {} } ∈ final.conns) := by
  obtain ⟨before, after⟩ := (Runs.meets_append reached).mp fresh
  obtain ⟨server', outputs', ran, sound⟩ := runs_sound before
  rw [reached] at ran
  cases ran
  obtain ⟨final, later, ran, heard, stands⟩ := session_run sound running after ready accepted away
  obtain ⟨front, whole⟩ := serve_framed going encodable encoded arrived
  refine ⟨final, later, ran, heard ▸ front, fun all => ?_⟩
  have served := whole all
  exact ⟨by rw [heard, served], (stands {}).mpr (by rw [served]; exact ⟨rfl, rfl⟩)⟩

theorem cancel_of_client_five_arrives :
    ∃ final later, run step { running := true } (.pass entryOfTwo :: passesOfTwo.map .pass) = .ok (final, later) ∧
      commandsOn 5 later.flatten <+: [cancelSeven] ∧
      (received (offered 5 passesOfTwo) = received (offered 5 passesOfTwo) →
        commandsOn 5 later.flatten = [cancelSeven] ∧ { fd := 5, conn := {} } ∈ final.conns) :=
  framed_commands_arrive started rfl entryOfTwo passesOfTwo 5 two_clients_fresh rfl
    (by decide) (by simp [passesOfTwo]) (by decide) [cancelSeven] (by decide) (received (offered 5 passesOfTwo))
    (by decide +kernel) (List.prefix_refl _)

end Exchange.Sessions
