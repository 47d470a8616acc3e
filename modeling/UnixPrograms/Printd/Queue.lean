import UnixPrograms.Printd.Jobs

/-!
# Runs of the job queue

The jobs that are done, the one in the hands of the printer thread and those in the list are, in
this order, all jobs in the order in which they were added.
-/

namespace UnixPrograms.Printd

open Function List Option

/-- The last job that was picked up is not done yet. -/
def started : List Event → Bool
  | .pick _ _ :: _ => true
  | .defer _ :: _ => true
  | _ => false

/-- What the last event says about the printer thread and the queue `l`. -/
def LastEvent {ι : Type} (s : State ι) (l : List ℕ) : List Event → Prop
  | .pick job _ :: _ => ∃ jp, s.printer.hand = [jp] ∧ s.num jp = job
  | .defer job :: _ => s.printer.hand = [] ∧ ∃ a l', l = a :: l' ∧ s.num a = job
  | _ => s.printer.hand = []

lemma LastEvent.mono {ι : Type} {s s' : State ι} {l : List ℕ} {log : List Event}
    (h : LastEvent s l log) (hhand : s'.printer.hand = s.printer.hand)
    (hnum : ∀ a ∈ s.printer.hand ++ l, s'.num a = s.num a) (m : List ℕ) :
    LastEvent s' (l ++ m) log := by
  cases log with
  | nil => exact hhand.trans h
  | cons e log =>
    cases e with
    | pick job jobid =>
      obtain ⟨jp, hjp, hjob⟩ := h
      exact ⟨jp, hhand.trans hjp, (hnum jp (by simp [hjp])).trans hjob⟩
    | defer job =>
      obtain ⟨hempty, a, l', rfl, hjob⟩ := h
      exact ⟨hhand.trans hempty, a, l' ++ m, rfl, (hnum a (by simp)).trans hjob⟩
    | done job => exact hhand.trans h

/-- The queue, the job in hand, the jobs about to be added and the log agree. -/
structure Running {ι : Type} (s : State ι) (l : List ℕ) : Prop where
  lists : s.jobs.Lists l
  live : ∀ a ∈ s.printer.hand ++ l, s.live a = true
  hand : ∀ a ∈ s.printer.hand, a ∉ 0 :: l
  filled : ∀ p jp, s.client p = .filled jp → jp ∉ 0 :: (s.printer.hand ++ l) ∧
    s.live jp = true ∧ s.jobs.nxt jp = 0 ∧ ∀ q, s.client q = .filled jp → q = p
  order : finished s.log ++ (s.printer.hand ++ l).map s.num = range s.order.length
  ids : ∀ a ∈ s.printer.hand ++ l, s.order[s.num a]? = some (s.jobs.heap a).jobid
  last : LastEvent s l s.log
  picks : picked s.log =
    s.order.take ((finished s.log).length + if started s.log then 1 else 0)
  signal : s.printer = .asleep → l ≠ [] → ∃ p, s.client p = .unlocked

lemma running_start {ι : Type} (heap : ℕ → Job) : Running (start heap : State ι) [] where
  lists := ⟨⟨rfl, rfl⟩, nodup_singleton 0⟩
  live _ h := absurd h not_mem_nil
  hand _ h := absurd h not_mem_nil
  filled _ _ h := by cases h
  order := rfl
  ids _ h := absurd h not_mem_nil
  last := rfl
  picks := rfl
  signal h := by cases h

namespace Running

variable {ι : Type} [DecidableEq ι] {s : State ι} {l : List ℕ} {p : ι} {jp : ℕ}

omit [DecidableEq ι] in
lemma count_le (h : Running s l) :
    (finished s.log).length + (if started s.log then 1 else 0) ≤ s.order.length := by
  have hlen := congrArg length h.order
  simp only [length_append, length_map, length_range] at hlen
  have hlast := h.last
  cases hlog : s.log with
  | nil => simp [finished, started]
  | cons e log =>
    rw [hlog] at hlast hlen
    cases e with
    | pick job jobid =>
      obtain ⟨jp, hprinter, -⟩ := hlast
      simp only [hprinter, length_singleton] at hlen
      simp only [started, if_true]
      omega
    | defer job =>
      obtain ⟨-, a, l', rfl, -⟩ := hlast
      rw [length_cons] at hlen
      simp only [started, if_true]
      omega
    | done job =>
      simp only [started, Bool.false_eq_true, if_false]
      omega

lemma malloc (h : Running s l) {jobid : ℤ} (hp : s.client p = .outside) (hjp : jp ≠ 0)
    (hlive : s.live jp = false) :
    Running { s with
      jobs := s.jobs.newJob jp jobid
      live := update s.live jp true
      client := update s.client p (.filled jp) } l := by
  -- the address is new
  have hnew : jp ∉ s.printer.hand ++ l := by
    intro hmem
    rw [h.live jp hmem] at hlive
    cases hlive
  have hne : ∀ a ∈ s.printer.hand ++ l, a ≠ jp := fun a ha heq => hnew (heq ▸ ha)
  have hnot : jp ∉ 0 :: l := by
    simp only [mem_cons, not_or]
    exact ⟨hjp, fun hmem => hnew (mem_append_right _ hmem)⟩
  have hothers : ∀ q jp', s.client q = .filled jp' → jp' ≠ jp := by
    rintro q jp' hq rfl
    rw [(h.filled q jp' hq).2.1] at hlive
    cases hlive
  have hclient : ∀ q jp', update s.client p (.filled jp) q = .filled jp' →
      q = p ∧ jp' = jp ∨ q ≠ p ∧ s.client q = .filled jp' := by
    intro q jp' hq
    by_cases hqp : q = p
    · rw [hqp, update_self] at hq
      exact .inl ⟨hqp, (Client.filled.inj hq).symm⟩
    · rw [update_of_ne hqp] at hq
      exact .inr ⟨hqp, hq⟩
  refine ⟨h.lists.newJob hnot jobid, fun a ha => ?_, h.hand, fun q jp' hq => ?_, h.order,
    fun a ha => ?_, h.last, h.picks, fun hs hl => ?_⟩
  · exact (update_of_ne (hne a ha) ..).trans (h.live a ha)
  · rcases hclient q jp' hq with ⟨rfl, rfl⟩ | ⟨-, hq'⟩
    · refine ⟨?_, update_self .., ?_, fun r hr => ?_⟩
      · rw [mem_cons, not_or]
        exact ⟨hjp, hnew⟩
      · rw [Jobs.nxt_newJob hjp, update_self]
      · rcases hclient r jp' hr with ⟨hrq, -⟩ | ⟨-, hr'⟩
        · exact hrq
        · exact absurd rfl (hothers r jp' hr')
    · obtain ⟨hmem, hlive', hnxt, huniq⟩ := h.filled q jp' hq'
      have hjp' := hothers q jp' hq'
      refine ⟨hmem, ?_, ?_, fun r hr => ?_⟩
      · exact (update_of_ne hjp' ..).trans hlive'
      · rw [Jobs.nxt_newJob hjp, update_of_ne hjp', hnxt]
      · rcases hclient r jp' hr with ⟨-, heq⟩ | ⟨-, hr'⟩
        · exact absurd heq hjp'
        · exact huniq r hr'
  · rw [h.ids a ha]
    simp [Jobs.newJob, update_of_ne (hne a ha)]
  · obtain ⟨q, hq⟩ := h.signal hs hl
    refine ⟨q, (update_of_ne ?_ ..).trans hq⟩
    rintro rfl
    rw [hp] at hq
    cases hq

lemma link (h : Running s l) (hp : s.client p = .filled jp) :
    Running { s with
      jobs := s.jobs.addJob jp
      client := update s.client p .unlocked
      order := s.order ++ [(s.jobs.heap jp).jobid]
      num := update s.num jp s.order.length } (l ++ [jp]) := by
  obtain ⟨hmem, hlive, hnxt, huniq⟩ := h.filled p jp hp
  simp only [mem_cons, mem_append, not_or] at hmem
  obtain ⟨hjp, hhand, hl⟩ := hmem
  have hnew : jp ∉ 0 :: l := by simp [hjp, hl]
  have hne : ∀ a ∈ s.printer.hand ++ l, a ≠ jp := by
    rintro a ha rfl
    rcases mem_append.mp ha with ha | ha
    · exact hhand ha
    · exact hl ha
  have hmap : (s.printer.hand ++ l).map (update s.num jp s.order.length) =
      (s.printer.hand ++ l).map s.num :=
    map_congr_left fun a ha => update_of_ne (hne a ha) ..
  have hothers : ∀ q jp', update s.client p .unlocked q = .filled jp' →
      q ≠ p ∧ s.client q = .filled jp' ∧ jp' ≠ jp := by
    intro q jp' hq
    have hqp : q ≠ p := by
      rintro rfl
      rw [update_self] at hq
      cases hq
    rw [update_of_ne hqp] at hq
    refine ⟨hqp, hq, ?_⟩
    rintro rfl
    exact hqp (huniq q hq)
  refine ⟨h.lists.addJob hnew hnxt, fun a ha => ?_, fun a ha => ?_, fun q jp' hq => ?_, ?_,
    fun a ha => ?_, ?_, ?_, fun _ _ => ⟨p, update_self ..⟩⟩
  · rw [← append_assoc] at ha
    rcases mem_append.mp ha with ha | ha
    · exact h.live a ha
    · rw [mem_singleton.mp ha]
      exact hlive
  · have ha' := h.hand a ha
    have hajp := hne a (mem_append_left _ ha)
    simp only [mem_cons, mem_append, not_mem_nil, or_false, not_or] at ha' ⊢
    exact ⟨ha'.1, ha'.2, hajp⟩
  · obtain ⟨hqp, hq, hjp'⟩ := hothers q jp' hq
    obtain ⟨hmem', hlive', hnxt', huniq'⟩ := h.filled q jp' hq
    refine ⟨?_, hlive', ?_, fun r hr => huniq' r (hothers r jp' hr).2.1⟩
    · simp only [mem_cons, mem_append, not_mem_nil, or_false, not_or] at hmem' ⊢
      exact ⟨hmem'.1, hmem'.2.1, hmem'.2.2, hjp'⟩
    · have hlast : jp' ≠ s.jobs.prv 0 := by
        rintro rfl
        have := h.lists.path.prv_mem
        simp only [mem_cons, mem_append, not_or] at hmem' this
        tauto
      rw [Jobs.addJob_eq hjp]
      simp [hlast, hnxt']
  · rw [← append_assoc, map_append, hmap, ← append_assoc, h.order]
    simp [range_succ]
  · rw [← append_assoc] at ha
    rw [Jobs.jobid_addJob hjp]
    rcases mem_append.mp ha with ha | ha
    · have hget := h.ids a ha
      have hlt : s.num a < s.order.length := by
        by_contra hge
        rw [getElem?_eq_none (Nat.le_of_not_lt hge)] at hget
        cases hget
      simp only [update_of_ne (hne a ha)]
      rw [getElem?_append_left hlt, hget]
    · rw [mem_singleton.mp ha]
      simp
  · refine h.last.mono (by rfl) (fun a ha => ?_) [jp]
    exact update_of_ne (hne a ha) ..
  · rw [take_append_of_le_length h.count_le]
    exact h.picks

omit [DecidableEq ι] in
lemma goOn (h : Running s l) {client : ι → Client} {printer : Printer}
    (hhand : printer.hand = s.printer.hand)
    (hclient : ∀ q jp', client q = .filled jp' → s.client q = .filled jp')
    (hsignal : printer = .asleep → l ≠ [] → ∃ p, client p = .unlocked) :
    Running { s with client := client, printer := printer } l := by
  refine ⟨h.lists, ?_, ?_, fun q jp' hq => ?_, ?_, ?_, ?_, h.picks, hsignal⟩
  · simpa only [hhand] using h.live
  · simpa only [hhand] using h.hand
  · simp only [hhand]
    obtain ⟨hmem, hlive, hnxt, huniq⟩ := h.filled q jp' (hclient q jp' hq)
    exact ⟨hmem, hlive, hnxt, fun r hr => huniq r (hclient r jp' hr)⟩
  · simpa only [hhand] using h.order
  · simpa only [hhand] using h.ids
  · rw [← append_nil l]
    exact h.last.mono hhand (fun _ _ => by rfl) []

omit [DecidableEq ι] in
lemma num_head (h : Running s l) {a : ℕ} {l' : List ℕ} (hall : s.printer.hand ++ l = a :: l') :
    s.num a = (finished s.log).length := by
  have horder := h.order
  rw [hall, map_cons] at horder
  have hget := congrArg (fun L => L[(finished s.log).length]?) horder
  simp only [getElem?_append_right (Nat.le_refl _), Nat.sub_self, getElem?_cons_zero]
    at hget
  have hlt : (finished s.log).length < s.order.length := by
    have hlen := congrArg length horder
    simp only [length_append, length_cons, length_range] at hlen
    omega
  rw [getElem?_range hlt] at hget
  exact some.inj hget

omit [DecidableEq ι] in
lemma pick {a : ℕ} (h : Running s (a :: l)) (hlocking : s.printer = .locking) :
    Running { s with
      jobs := s.jobs.removeJob a
      printer := .printing a
      log := .pick (s.num a) (s.jobs.heap a).jobid :: s.log } l := by
  have hhand : s.printer.hand = [] := by rw [hlocking]; rfl
  have hnum : s.num a = (finished s.log).length := h.num_head (by rw [hhand, nil_append])
  have hal : a ∉ 0 :: l := by
    have hperm := (List.Perm.swap 0 a l).nodup_iff.mpr h.lists.nodup
    exact (nodup_cons.mp hperm).1
  have hlists : s.jobs.Lists ([] ++ a :: l) := h.lists
  obtain ⟨ha0, hnext⟩ := hlists.nxt_ne
  have hall : s.printer.hand ++ a :: l = a :: l := by rw [hhand, nil_append]
  have hget := h.ids a (by simp)
  rw [hnum] at hget
  refine ⟨hlists.removeJob, ?_, ?_, fun q jp' hq => ?_, ?_, fun u hu => ?_, ⟨a, rfl, rfl⟩, ?_, ?_⟩
  · exact fun u hu => h.live u (by rw [hall]; exact hu)
  · intro u hu
    rw [mem_singleton.mp hu]
    exact hal
  · obtain ⟨hmem, hlive, hnxt, huniq⟩ := h.filled q jp' hq
    rw [hall] at hmem
    refine ⟨hmem, hlive, ?_, huniq⟩
    have hjp0 : jp' ≠ 0 := fun heq => hmem (by simp [heq])
    rw [Jobs.removeJob_eq ha0 hnext, h.lists.path.2.1]
    simp [hjp0, hnxt]
  · have horder := h.order
    rw [hall] at horder
    exact horder
  · rw [Jobs.jobid_removeJob ha0 hnext]
    exact h.ids u (by rw [hall]; exact hu)
  · -- a job that was put back is at the head of the queue, so it is the one picked up
    have hlast := h.last
    have hpicked := h.picks
    cases hlog : s.log with
    | nil =>
      rw [hlog] at hget
      simp only [finished, length_nil] at hget
      simp [picked, finished, started, take_add_one, hget]
    | cons e log =>
      rw [hlog] at hlast hpicked hget
      cases e with
      | pick job jobid =>
        obtain ⟨jp', hjp', -⟩ := hlast
        rw [hhand] at hjp'
        cases hjp'
      | defer job =>
        obtain ⟨-, a', l', hal', hjob⟩ := hlast
        have haa : a = a' := (cons.inj hal').1
        rw [← haa] at hjob
        rw [picked, if_pos (by rw [hjob]; rfl)]
        exact hpicked
      | done job =>
        rw [picked, if_neg (by simp), hpicked]
        simp only [finished, started, Bool.false_eq_true, if_false, if_true, Nat.add_zero,
          take_add_one] at hget ⊢
        rw [hget]
        rfl
  · intro hs
    cases hs

omit [DecidableEq ι] in
lemma done (h : Running s l) (hprinting : s.printer = .printing jp) :
    Running { s with
      live := update s.live jp false
      printer := .locking
      log := .done (s.num jp) :: s.log } l := by
  have hhand : s.printer.hand = [jp] := by rw [hprinting]; rfl
  have hjp : jp ∉ 0 :: l := h.hand jp (by simp [hhand])
  have hnum : s.num jp = (finished s.log).length :=
    h.num_head (by rw [hhand, singleton_append])
  have hpicks := h.picks
  have hstarted : started s.log = true := by
    have hlast := h.last
    cases hlog : s.log with
    | nil =>
      rw [hlog] at hlast
      exact absurd (hhand.symm.trans hlast) (cons_ne_nil _ _)
    | cons e log =>
      rw [hlog] at hlast
      cases e with
      | pick job jobid | defer job => rfl
      | done job => exact absurd (hhand.symm.trans hlast) (cons_ne_nil _ _)
  refine ⟨h.lists, fun u hu => ?_, fun _ hu => absurd hu not_mem_nil, fun q jp' hq => ?_, ?_,
    fun u hu => h.ids u (mem_append_right _ hu), rfl, ?_, fun hs => by cases hs⟩
  · have hne : u ≠ jp := by
      rintro rfl
      exact hjp (mem_cons_of_mem 0 hu)
    exact (update_of_ne hne ..).trans (h.live u (mem_append_right _ hu))
  · obtain ⟨hmem, hlive, hnxt, huniq⟩ := h.filled q jp' hq
    simp only [hhand, mem_cons, mem_append, not_mem_nil, or_false, not_or] at hmem
    refine ⟨?_, (update_of_ne hmem.2.1 ..).trans hlive, hnxt, huniq⟩
    simp only [Printer.hand, mem_cons, nil_append, not_or]
    exact ⟨hmem.1, hmem.2.2⟩
  · have horder := h.order
    rw [hhand] at horder
    simp only [finished, Printer.hand, nil_append, append_assoc]
    exact horder
  · rw [hstarted, if_pos rfl] at hpicks
    simp only [picked, finished, started, length_append, length_singleton,
      Bool.false_eq_true, if_false, Nat.add_zero]
    exact hpicks

omit [DecidableEq ι] in
lemma defer (h : Running s l) (hprinting : s.printer = .printing jp) :
    Running { s with
      jobs := s.jobs.replaceJob jp
      printer := .locking
      log := .defer (s.num jp) :: s.log } (jp :: l) := by
  have hhand : s.printer.hand = [jp] := by rw [hprinting]; rfl
  have hjp : jp ∉ 0 :: l := h.hand jp (by simp [hhand])
  have hjp0 : jp ≠ 0 := fun heq => hjp (by simp [heq])
  have hall : s.printer.hand ++ l = jp :: l := by rw [hhand, singleton_append]
  have hpicks := h.picks
  refine ⟨h.lists.replaceJob hjp, fun u hu => h.live u (by rw [hall]; exact hu),
    fun _ hu => absurd hu not_mem_nil, fun q jp' hq => ?_, ?_, fun u hu => ?_,
    ⟨rfl, jp, l, rfl, rfl⟩, ?_, fun hs => by cases hs⟩
  · obtain ⟨hmem, hlive, hnxt, huniq⟩ := h.filled q jp' hq
    rw [hall] at hmem
    refine ⟨hmem, hlive, ?_, huniq⟩
    have hne : jp' ≠ jp := fun heq => hmem (by simp [heq])
    have hne0 : jp' ≠ 0 := fun heq => hmem (by simp [heq])
    rw [Jobs.replaceJob_eq hjp0]
    simp [hne, hne0, hnxt]
  · have horder := h.order
    rw [hall] at horder
    exact horder
  · rw [Jobs.jobid_replaceJob hjp0]
    exact h.ids u (by rw [hall]; exact hu)
  · -- the job was started before and still is
    have hlast := h.last
    cases hlog : s.log with
    | nil =>
      rw [hlog] at hlast
      exact absurd (hhand.symm.trans hlast) (cons_ne_nil _ _)
    | cons e log =>
      rw [hlog] at hlast hpicks
      cases e with
      | pick job jobid => exact hpicks
      | defer job => exact absurd (hhand.symm.trans hlast.1) (cons_ne_nil _ _)
      | done job => exact absurd (hhand.symm.trans hlast) (cons_ne_nil _ _)

lemma step {s' : State ι} {a : Action ι} (h : Running s l) (hst : step s a = some s') :
    ∃ l', Running s' l' := by
  revert hst
  fun_cases Printd.step s a with
  | case1 p jp jobid hp =>
    exact fun hst => ⟨l, some.inj hst ▸ h.malloc hp.1 hp.2.1 hp.2.2⟩
  | case3 p jp hp => exact fun hst => ⟨_, some.inj hst ▸ h.link hp⟩
  | case5 p =>
    rintro ⟨⟩
    refine ⟨l, h.goOn ?_ (fun q jp' hq => ?_) fun hs => ?_⟩
    · split
      · rename_i hasleep
        rw [hasleep]
        rfl
      · rfl
    · by_cases hqp : q = p
      · rw [hqp, update_self] at hq
        cases hq
      · rwa [update_of_ne hqp] at hq
    · split at hs
      · cases hs
      · exact absurd hs ‹_›
  | case7 hasleep =>
    rintro ⟨⟩
    exact ⟨l, h.goOn (hasleep ▸ rfl) (fun _ _ hq => hq) fun hs => by cases hs⟩
  | case9 hlocking hhead =>
    rintro ⟨⟩
    have hempty : l = [] := h.lists.nxt_eq_iff.mp hhead
    exact ⟨l, h.goOn (hlocking ▸ rfl) (fun _ _ hq => hq) fun _ hl => absurd hempty hl⟩
  | case10 hlocking hhead =>
    rintro ⟨⟩
    cases l with
    | nil => exact absurd (h.lists.nxt_eq_iff.mpr rfl) hhead
    | cons a l =>
      have ha : s.jobs.jobhead = a := h.lists.path.1
      rw [ha]
      exact ⟨l, h.pick hlocking⟩
  | case12 jp hprinter => exact fun hst => ⟨l, some.inj hst ▸ h.done hprinter⟩
  | case14 jp hprinter => exact fun hst => ⟨_, some.inj hst ▸ h.defer hprinter⟩
  | _ => simp

end Running

/-- In every run the queue is a doubly linked list; the jobs that are done, in the hands of the
printer thread and in the queue are all jobs that were added, each once and in this order; and when
the printer thread sleeps while there is a job, a client is about to signal it. -/
theorem queue_of_run {ι : Type} [DecidableEq ι] {heap : ℕ → Job} {as : List (Action ι)}
    {s : State ι}
    (hrun : RunFrom step (start heap) as s) :
    ∃ l, s.jobs.Lists l ∧
      finished s.log ++ s.printer.hand.map s.num ++ l.map s.num = range s.order.length ∧
      picked s.log <+: s.order ∧
      (s.printer = .asleep → s.jobs.jobhead ≠ 0 → ∃ p, s.client p = .unlocked) := by
  obtain ⟨l, h⟩ := hrun.invariant (I := fun s => ∃ l, Running s l) ⟨[], running_start heap⟩
    fun _ _ _ ⟨_, hI⟩ hst _ => hI.step hst
  refine ⟨l, h.lists, ?_, ?_, fun hasleep hhead => h.signal hasleep ?_⟩
  · rw [append_assoc, ← map_append]
    exact h.order
  · rw [h.picks]
    exact take_prefix ..
  · rintro rfl
    exact hhead (h.lists.nxt_eq_iff.mpr rfl)

def deferredOnce : List (Action (Fin 2)) :=
  [.look, .malloc 0 5 101, .malloc 1 6 102, .link 0, .signal 0, .look, .link 1, .defer, .look,
    .signal 1, .done]

/-- The second job is in the queue then, and the first one was picked up once. -/
theorem queue_of_run_deferredOnce : ∃ (s : State (Fin 2)) (l : List ℕ),
    RunFrom step (start fun _ => ⟨0, 0, 0⟩) deferredOnce s ∧ s.jobs.Lists l ∧ l.map s.num = [1] ∧
      picked s.log = [101] ∧ s.order = [101, 102] ∧ picked s.log <+: s.order := by
  obtain ⟨s, hrun, hfinished, hprinter, hpicked, horder⟩ :=
    exists_runFrom step (start fun _ => ⟨0, 0, 0⟩) deferredOnce
      (fun s => finished s.log = [0] ∧ s.printer = .locking ∧ picked s.log = [101] ∧
        s.order = [101, 102]) (by decide +kernel)
  obtain ⟨l, hlists, hall, hprefix, -⟩ := queue_of_run hrun
  rw [hfinished, hprinter, horder] at hall
  have hl : l.map s.num = [1] := (cons.inj hall).2
  exact ⟨s, l, hrun, hlists, hl, hpicked, horder, hprefix⟩

end UnixPrograms.Printd
