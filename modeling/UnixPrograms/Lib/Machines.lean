import UnixPrograms.Lib.Adequacy
import UnixPrograms.Lib.Histories

/-!
# Processes that keep to the protocol together

`Running` says that the cells are divided soundly and that what is left of each call is safe with
what its process holds.  From `Running.step` it follows that calls are linearizable in the order of
their returns, no two processes take or append at the same place, and none wait for each other in a
circle.
-/

namespace UnixPrograms

open List

open Function (update)

variable {ι F R γ E O δ V M : Type}

def Event.endSeen [DecidableEq F] (fd : F) : Event ι F E O V → Option ℤ
  | .sys _ c r => c.endSeen fd r
  | _ => none

/-- The ends of the file `fd` that have been looked up in a run, in order to append there. -/
def endsSeen [DecidableEq F] (fd : F) (evs : List (Event ι F E O V)) : List ℤ :=
  evs.filterMap (Event.endSeen fd)

/-- A library that keeps to a protocol in the calls that `A` allows: with private data that satisfy
`D`, a call ends as `Φ` or `Ψ` says, and leaves such data or an error that satisfies `L`. -/
structure Obeys [DecidableEq F] [DecidableEq R] (P : Protocol F R γ) (lib : Library F E O δ V)
    (A : O → Prop) (D : δ → Prop) (L : E → Prop) (Φ : O → V × δ → Option (R × γ × γ) → Prop)
    (Ψ : O → E → Holding F R γ → Prop) : Prop where
  safe : ∀ o d pos, A o → D d → Safe P (Φ o) (Ψ o) (lib o d) (.empty pos)
  data : ∀ o a x, Φ o a x → D a.2
  error : ∀ o e h, Ψ o e h → L e

/-- A process is idle without locks, or what is left of its call is safe. -/
def ProcOk [DecidableEq F] [DecidableEq R] (P : Protocol F R γ) (A : O → Prop) (D : δ → Prop)
    (Φ : O → V × δ → Option (R × γ × γ) → Prop) (Ψ : O → E → Holding F R γ → Prop)
    (h : Holding F R γ) (noted : List (F × ℕ)) : Proc F E O δ V → Prop
  | .idle d => D d ∧ ∀ r, h.held r = none
  | .busy o q => A o ∧ noted = h.noted ∧ Safe P (Φ o) (Ψ o) q h
  | .dead _ => False

/-- Every process is idle or inside a call that is safe from here on. -/
structure Running [Fintype ι] [Fintype F] [DecidableEq F] [Fintype R] [DecidableEq R]
    (P : Protocol F R γ) (A : O → Prop) (D : δ → Prop)
    (Φ : O → V × δ → Option (R × γ × γ) → Prop) (Ψ : O → E → Holding F R γ → Prop)
    (s : Machine ι F E O δ V) (G : Division ι F R γ) : Prop where
  sound : Sound P s.world G
  procs : ∀ p, ProcOk P A D Φ Ψ (G.loc p) (s.noted p) (s.proc p)

/-- What a step does to the division. -/
structure Moved [DecidableEq F] [DecidableEq R] (P : Protocol F R γ)
    (Φ : O → V × δ → Option (R × γ × γ) → Prop) (es : List (Event ι F E O V))
    (G G' : Division ι F R γ) : Prop where
  leak : G'.leak = G.leak
  size : ∀ fd, (G.blocks fd).flatten.length ≤ (G'.blocks fd).flatten.length
  /-- One process looks at the end of a file, or the end moves before one forgets it. -/
  ends : ∀ fd, endsSeen fd es = [] ∧ (∀ q, (G.loc q).atEnd fd = true → (G'.loc q).atEnd fd = true ∨
      (G.blocks fd).flatten.length < (G'.blocks fd).flatten.length) ∨
    ∃ p, endsSeen fd es = [((G.blocks fd).flatten.length : ℤ)] ∧ (G.loc p).atEnd fd = false ∧
      (G'.loc p).atEnd fd = true ∧ ∀ q, q ≠ p → G'.loc q = G.loc q
  /-- Only a call that returns changes what the resources of rank 0 represent. -/
  returned : returns es = [] ∧ (∀ r, P.rank r = 0 → G'.cur r = G.cur r) ∨
    ∃ o a x, returns es = [(o, a.1)] ∧ Φ o a x ∧ Changes P x G.cur G'.cur

section Steps

variable [Fintype ι] [DecidableEq ι] [Fintype F] [DecidableEq F] [Fintype R] [DecidableEq R]
  {P : Protocol F R γ} {lib : Library F E O δ V} {A : O → Prop} {D : δ → Prop} {L : E → Prop}
  {Φ : O → V × δ → Option (R × γ × γ) → Prop} {Ψ : O → E → Holding F R γ → Prop}
  {s s' : Machine ι F E O δ V} {G G' : Division ι F R γ} {p : ι} {o : O}

/-! ## One step -/

omit [Fintype ι] [DecidableEq ι] [Fintype F] [Fintype R] in
/-- The end of a call, if it has come. -/
lemma Obeys.settle (hlib : Obeys P lib A D L Φ Ψ) {q : FileProg F E (V × δ)} {h : Holding F R γ}
    {noted : List (F × ℕ)} (hA : A o) (hnoted : noted = h.noted) (hq : Safe P (Φ o) (Ψ o) q h)
    (hno : ∀ e, .abort p o e ∈ Machine.ended p o q → ¬ L e) :
    ProcOk P A D Φ Ψ h noted (Machine.settle o q) ∧
      (returns (Machine.ended p o q) = [] ∨
        ∃ a, returns (Machine.ended p o q) = [(o, a.1)] ∧ Φ o a none) := by
  cases hq with
  | @ret a h hidle ha => exact ⟨⟨hlib.data o a none ha, hidle⟩, .inr ⟨a, rfl, ha⟩⟩
  | fail he => exact absurd (hlib.error o _ _ he) (hno _ mem_cons_self)
  | call Q hc hk => exact ⟨⟨hA, hnoted, .call Q hc hk⟩, .inl rfl⟩
  | loop hr => exact ⟨⟨hA, hnoted, .loop hr⟩, .inl rfl⟩
  | finish hat hr ha => exact ⟨⟨hA, hnoted, .finish hat hr ha⟩, .inl rfl⟩

omit [Fintype ι] [DecidableEq ι] [Fintype F] in
lemma endsSeen_ended (fd : F) (q : FileProg F E (V × δ)) :
    endsSeen fd (Machine.ended p o q) = [] := by
  cases q <;> rfl

lemma Running.resume {q : FileProg F E (V × δ)} {w : World ι F} {noted : List (F × ℕ)}
    (hs : Running P A D Φ Ψ s G) (hS : Sound P w G') (hothers : ∀ q, q ≠ p → G'.loc q = G.loc q)
    (hp : ProcOk P A D Φ Ψ (G'.loc p) noted (Machine.settle o q)) :
    Running P A D Φ Ψ (s.resume p o q w noted) G' := by
  refine ⟨hS, fun p' => ?_⟩
  by_cases hp' : p' = p
  · subst hp'
    simpa only [Machine.resume, Function.update_self] using hp
  · simpa only [Machine.resume, Function.update_of_ne hp', hothers p' hp'] using hs.procs p'

variable {es : List (Event ι F E O V)}

omit [Fintype ι] [DecidableEq ι] [Fintype F] [Fintype R] in
lemma Moved.same (hends : ∀ fd, endsSeen fd es = [])
    (hret : returns es = [] ∨ ∃ a, returns es = [(o, a.1)] ∧ Φ o a none) : Moved P Φ es G G where
  leak := rfl
  size _ := Nat.le_refl _
  ends fd := .inl ⟨hends fd, fun _ hq => .inl hq⟩
  returned := by
    rcases hret with hnone | ⟨a, ha, hΦ⟩
    · exact .inl ⟨hnone, fun _ _ => rfl⟩
    · exact .inr ⟨o, a, none, ha, hΦ, fun _ _ => rfl⟩

omit [Fintype ι] [DecidableEq ι] [Fintype F] [Fintype R] in
lemma Advance.moved {c : Sys F} {v : c.Reply} (hA : Advance P p c v G G')
    (hends : ∀ fd, endsSeen fd es = [])
    (hret : returns es = [] ∨ ∃ a, returns es = [(o, a.1)] ∧ Φ o a none) :
    Moved P Φ (.sys p c v :: es) G G' where
  leak := hA.leak
  size := hA.size
  ends fd := by
    have hseen : endsSeen fd (.sys p c v :: es) = (c.endSeen fd v).toList := by
      rw [endsSeen, filterMap_cons, ← endsSeen, hends fd]
      cases h : c.endSeen fd v with
      | none | some n => simp [Event.endSeen, h]
    rcases hA.ends fd with ⟨hnone, hkeep⟩ | ⟨hsome, hbefore, hafter⟩
    · refine .inl ⟨by rw [hseen, hnone]; rfl, fun q hq => ?_⟩
      by_cases hqp : q = p
      · subst hqp
        exact hkeep hq
      · rw [hA.others q hqp]
        exact .inl hq
    · exact .inr ⟨p, by rw [hseen, hsome]; rfl, hbefore, hafter, hA.others⟩
  returned := by
    have hreturns : returns (.sys p c v :: es) = returns es := rfl
    rw [hreturns]
    rcases hret with hnone | ⟨a, ha, hΦ⟩
    · exact .inl ⟨hnone, hA.cur⟩
    · exact .inr ⟨o, a, none, ha, hΦ, hA.cur⟩

lemma Running.step (hlib : Obeys P lib A D L Φ Ψ) (hs : Running P A D Φ Ψ s G)
    (hstep : Machine.Step lib s es s') (hA : ∀ p o, .call p o ∈ es → A o)
    (hno : ∀ p o e, .abort p o e ∈ es → ¬ L e) :
    ∃ G', Running P A D Φ Ψ s' G' ∧ Moved P Φ es G G' := by
  cases hstep with
  | @call p d o hidle =>
    have hp := hs.procs p
    rw [hidle] at hp
    have hloc := (hs.sound.keeps p).eq_empty hp.2
    have hnoted : [] = (G.loc p).noted := by rw [hloc]; rfl
    have hsafe := hlib.safe o d (G.loc p).pos (hA p o mem_cons_self) hp.1
    rw [← hloc] at hsafe
    obtain ⟨hproc, hret⟩ := hlib.settle (hA p o mem_cons_self) hnoted hsafe
      fun e he => hno p o e (mem_cons_of_mem _ he)
    exact ⟨G, hs.resume hs.sound (fun _ _ => rfl) hproc, .same (fun fd => endsSeen_ended fd _) hret⟩
  | @round p o σ β body x k hbusy =>
    have hp := hs.procs p
    rw [hbusy] at hp
    obtain ⟨hAo, hnoted, hsafe⟩ := hp
    cases hsafe with
    | loop hr =>
      obtain ⟨hproc, hret⟩ := hlib.settle hAo hnoted hr fun e he => hno p o e he
      exact ⟨G, hs.resume hs.sound (fun _ _ => rfl) hproc,
        .same (fun fd => endsSeen_ended fd _) hret⟩
  | @sys p o c k hbusy hfree =>
    have hp := hs.procs p
    rw [hbusy] at hp
    obtain ⟨hAo, hnoted, hsafe⟩ := hp
    cases hsafe with
    | call Q hc hk =>
      obtain ⟨G', hS, hQ, hadv⟩ := hs.sound.perform hc hfree
      have hnoted' : c.noted ++ s.noted p = (G'.loc p).noted := by rw [hadv.noted, hnoted]
      obtain ⟨hproc, hret⟩ := hlib.settle hAo hnoted' (hk _ _ hQ)
        fun e he => hno p o e (mem_cons_of_mem _ he)
      exact ⟨G', hs.resume hS hadv.others hproc, hadv.moved (fun fd => endsSeen_ended fd _) hret⟩
    | @finish fd start len a _ r g g' hat hr ha =>
      obtain ⟨G', hS, hidle, hothers, hleak, hblocks, hg, hcur⟩ := hs.sound.finish hat hr
      refine ⟨G', hs.resume hS hothers ⟨hlib.data o a _ ha, hidle⟩, hleak, fun fd => ?_,
        fun fd => ?_, .inr ⟨o, a, some (r, g, g'), rfl, ha, fun _ => hg, fun r' _ => by rw [hcur]⟩⟩
      · rw [hblocks]
      · refine .inl ⟨rfl, fun q hq => ?_⟩
        by_cases hqp : q = p
        · subst hqp
          rw [hr.2.1 fd] at hq
          cases hq
        · rw [hothers q hqp]
          exact .inl hq

/-! ## Whole runs -/

/-- The division stands for a state `abs cur` of the specification, which only the calls that return
change. -/
structure Represents (P : Protocol F R γ) (Φ : O → V × δ → Option (R × γ × γ) → Prop)
    (spec : M → O → V × M) (abs : (R → γ) → M) : Prop where
  step : ∀ o a x cur cur', Φ o a x → Changes P x cur cur' → spec (abs cur) o = (a.1, abs cur')
  same : ∀ cur cur', (∀ r, P.rank r = 0 → cur' r = cur r) → abs cur' = abs cur

/-- The ends of a file that have been looked up increase, and the file has grown beyond all of them,
unless the process that has looked up the last one has still to write there. -/
structure EndsOk (fd : F) (ends : List ℤ) (G : Division ι F R γ) : Prop where
  order : ends.Pairwise (· < ·)
  le : ∀ n ∈ ends, n ≤ ((G.blocks fd).flatten.length : ℤ)
  last : ((G.blocks fd).flatten.length : ℤ) ∈ ends → ∃ q, (G.loc q).atEnd fd = true

lemma EndsOk.step {fd : F} {ends : List ℤ} {w : World ι F} (h : EndsOk fd ends G)
    (hS : Sound P w G') (hm : Moved P Φ es G G') : EndsOk fd (ends ++ endsSeen fd es) G' := by
  have hsize : ((G.blocks fd).flatten.length : ℤ) ≤ (G'.blocks fd).flatten.length :=
    Int.ofNat_le.mpr (hm.size fd)
  rcases hm.ends fd with ⟨hnone, hkeep⟩ | ⟨p, hsome, hbefore, hafter, hothers⟩
  · rw [hnone, append_nil]
    refine ⟨h.order, fun n hn => (h.le n hn).trans hsize, fun hmem => ?_⟩
    have hle := h.le _ hmem
    obtain ⟨q, hq⟩ := h.last (le_antisymm hsize hle ▸ hmem)
    rcases hkeep q hq with hq' | hlt
    · exact ⟨q, hq'⟩
    · omega
  · rw [hsome]
    have hnew : ∀ n ∈ ends, n < ((G.blocks fd).flatten.length : ℤ) := by
      intro n hn
      refine lt_of_le_of_ne (h.le n hn) ?_
      rintro rfl
      obtain ⟨q, hq⟩ := h.last hn
      have hqp : q ≠ p := by
        rintro rfl
        rw [hbefore] at hq
        cases hq
      rw [← hothers q hqp] at hq
      obtain ⟨n, hn⟩ := (hS.keeps q).atEnd fd hq
      obtain ⟨m, hm⟩ := (hS.keeps p).atEnd fd hafter
      exact hS.not_eof_mem_both hqp hn hm
    refine ⟨pairwise_append.mpr ⟨h.order, pairwise_singleton .., fun n hn m hm => ?_⟩,
      fun n hn => ?_, fun _ => ⟨p, hafter⟩⟩
    · rw [mem_singleton.mp hm]
      exact hnew n hn
    · rcases mem_append.mp hn with hn | hn
      · exact (h.le n hn).trans hsize
      · rw [mem_singleton.mp hn]
        exact hsize

/-- What the calls have returned so far is what the specification says. -/
structure After (P : Protocol F R γ) (A : O → Prop) (D : δ → Prop)
    (Φ : O → V × δ → Option (R × γ × γ) → Prop) (Ψ : O → E → Holding F R γ → Prop)
    (spec : M → O → V × M) (abs : (R → γ) → M) (G₀ : Division ι F R γ)
    (evs : List (Event ι F E O V)) (s : Machine ι F E O δ V) (G : Division ι F R γ) : Prop where
  running : Running P A D Φ Ψ s G
  leak : G.leak = G₀.leak
  spec : seqRun spec (abs G₀.cur) ((returns evs).map Prod.fst) =
    ((returns evs).map Prod.snd, abs G.cur)
  ends : ∀ fd, EndsOk fd (endsSeen fd evs) G

lemma Running.run (hlib : Obeys P lib A D L Φ Ψ) {spec : M → O → V × M} {abs : (R → γ) → M}
    (hrep : Represents P Φ spec abs) {s₀ : Machine ι F E O δ V} {G₀ : Division ι F R γ}
    (hs₀ : Running P A D Φ Ψ s₀ G₀) {evs : List (Event ι F E O V)} (hrun : Machine.Run lib s₀ evs s)
    (hA : ∀ p o, .call p o ∈ evs → A o) (hno : ∀ p o e, .abort p o e ∈ evs → ¬ L e) :
    ∃ G, After P A D Φ Ψ spec abs G₀ evs s G := by
  induction hrun with
  | start => exact ⟨G₀, hs₀, rfl, rfl, fun fd => ⟨List.Pairwise.nil, nofun, nofun⟩⟩
  | @next evs es s s' hrun hstep ih =>
    obtain ⟨G, hG⟩ := ih (fun p o h => hA p o (mem_append_left _ h))
      (fun p o e h => hno p o e (mem_append_left _ h))
    obtain ⟨G', hs', hm⟩ :=
      hG.running.step hlib hstep (fun p o h => hA p o (mem_append_right _ h))
      (fun p o e h => hno p o e (mem_append_right _ h))
    refine ⟨G', hs', hm.leak.trans hG.leak, ?_, fun fd => ?_⟩
    · rw [returns_append, map_append, map_append]
      rcases hm.returned with ⟨hnone, hcur⟩ | ⟨o, a, x, hone, hΦ, hch⟩
      · rw [hnone, hrep.same _ _ hcur, map_nil, map_nil, append_nil, append_nil]
        exact hG.spec
      · rw [hone]
        exact seqRun_concat hG.spec (hrep.step o a x _ _ hΦ hch)
    · have hends : endsSeen fd (evs ++ es) = endsSeen fd evs ++ endsSeen fd es :=
        filterMap_append
      rw [hends]
      exact (hG.ends fd).step hs'.sound hm

/-! ## Calls in progress -/

lemma Running.disjoint_noted (hs : Running P A D Φ Ψ s G) {p q : ι} (hpq : p ≠ q) {o o' : O}
    {k k' : FileProg F E (V × δ)} (hp : s.proc p = .busy o k) (hq : s.proc q = .busy o' k') :
    (s.noted p).Disjoint (s.noted q) := by
  intro x hxp hxq
  have hokp := hs.procs p
  have hokq := hs.procs q
  rw [hp] at hokp
  rw [hq] at hokq
  rw [hokp.2.1] at hxp
  rw [hokq.2.1] at hxq
  obtain ⟨b, hb⟩ := (hs.sound.keeps p).noted x hxp
  obtain ⟨b', hb'⟩ := (hs.sound.keeps q).noted x hxq
  exact hs.sound.not_block_mem_both hpq hb hb'

omit [DecidableEq ι] in
lemma Running.waits (hs : Running P A D Φ Ψ s G) {p q : ι} (hw : s.WaitsFor p q) :
    ∃ r, (∀ r', (G.loc p).held r' ≠ none → P.rank r' < P.rank r) ∧ (G.loc q).held r ≠ none := by
  obtain ⟨o, fd, mode, start, len, k, hp, hne, b, m, hb, hlock, -⟩ := hw
  have hok := hs.procs p
  rw [hp] at hok
  obtain ⟨-, -, hsafe⟩ := hok
  cases hsafe with
  | call Q hc hk =>
    obtain ⟨r, ⟨hfile, rfl, rfl⟩, hrank, -⟩ := hc
    obtain ⟨r', g, hr', hfile', hb'⟩ := (hs.sound.locks q fd b m).mp hlock
    obtain rfl := P.apart r' r b (hfile'.trans hfile.symm) hb' hb
    exact ⟨r', hrank, by rw [hr']; nofun⟩

omit [DecidableEq ι] in
lemma Running.not_waits_circle (hs : Running P A D Φ Ψ s G) (p : ι) :
    ¬ Relation.TransGen s.WaitsFor p p := by
  -- the rank of what is waited for increases along a chain of waiting processes
  have hchain : ∀ q, Relation.TransGen s.WaitsFor p q → ∃ r r',
      (∀ r'', (G.loc p).held r'' ≠ none → P.rank r'' < P.rank r) ∧ P.rank r ≤ P.rank r' ∧
        (G.loc q).held r' ≠ none := by
    intro q hq
    induction hq with
    | single hw =>
      obtain ⟨r, hrank, hheld⟩ := hs.waits hw
      exact ⟨r, r, hrank, le_rfl, hheld⟩
    | tail _ hw ih =>
      obtain ⟨r, r', hrank, hle, hheld⟩ := ih
      obtain ⟨r₁, hrank₁, hheld₁⟩ := hs.waits hw
      exact ⟨r, r₁, hrank, hle.trans (hrank₁ r' hheld).le, hheld₁⟩
  intro hcircle
  obtain ⟨r, r', hrank, hle, hheld⟩ := hchain p hcircle
  exact absurd (hrank r' hheld) (Nat.not_lt.mpr hle)

end Steps

end UnixPrograms
