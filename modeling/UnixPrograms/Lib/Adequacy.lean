import UnixPrograms.Lib.Division

/-!
# Programs that keep to the protocol do no harm

A system call that the protocol allows keeps the division of the cells sound and gives the process
what `Protocol.Allows` promises (`Sound.perform`).  So a safe program that runs by itself ends with
a result as promised (`Safe.exec`), and safe programs that run together never wait for each other in
a circle.
-/

namespace UnixPrograms

open Function Multiset

variable {ι F R γ : Type}

/-! ## One system call -/

def Sys.endSeen [DecidableEq F] (fd : F) : (c : Sys F) → c.Reply → Option ℤ
  | .lseek fd' _ .seekEnd, r => if fd' = fd then some r else none
  | _, _ => none

/-- What a system call of `p` with the reply `v` may do to the division. -/
structure Advance [DecidableEq F] (P : Protocol F R γ) (p : ι) (c : Sys F) (v : c.Reply)
    (G G' : Division ι F R γ) : Prop where
  others : ∀ q, q ≠ p → G'.loc q = G.loc q
  cur : ∀ r, P.rank r = 0 → G'.cur r = G.cur r
  leak : G'.leak = G.leak
  noted : (G'.loc p).noted = c.noted ++ (G.loc p).noted
  size : ∀ fd, (G.blocks fd).flatten.length ≤ (G'.blocks fd).flatten.length
  /-- Who looks at the end of a file has not looked yet, and then moves it before looking again. -/
  ends : ∀ fd, c.endSeen fd v = none ∧ ((G.loc p).atEnd fd = true → (G'.loc p).atEnd fd = true ∨
      (G.blocks fd).flatten.length < (G'.blocks fd).flatten.length) ∨
    c.endSeen fd v = some ((G.blocks fd).flatten.length : ℤ) ∧ (G.loc p).atEnd fd = false ∧
      (G'.loc p).atEnd fd = true

namespace Sound

variable [Fintype ι] [DecidableEq ι] [Fintype F] [DecidableEq F] [Fintype R] [DecidableEq R]
  {P : Protocol F R γ} {w : World ι F} {G : Division ι F R γ} {p : ι} {h : Holding F R γ}

/-- The system call keeps the invariant, and gives the process what it was promised. -/
def Goes (P : Protocol F R γ) (w : World ι F) (G : Division ι F R γ) (p : ι) (c : Sys F)
    (Q : c.Reply → Holding F R γ → Prop) : Prop :=
  ∃ G', Sound P (w.perform p c).2 G' ∧ Q (w.perform p c).1 (G'.loc p) ∧
    Advance P p c (w.perform p c).1 G G'

variable {c : Sys F} {fd : F} {n len start : ℕ} {Q : Unit → Holding F R γ → Prop} {bs : Bytes}
  {r : R} {g : γ}

omit [Fintype F] [Fintype R] [DecidableEq R] [Fintype ι] in
lemma advance_setLoc {v : c.Reply} (hnoted : h.noted = c.noted ++ (G.loc p).noted)
    (hend : ∀ fd, c.endSeen fd v = none ∧ h.atEnd fd = (G.loc p).atEnd fd ∨ c.endSeen fd v = some
      ((G.blocks fd).flatten.length : ℤ) ∧ (G.loc p).atEnd fd = false ∧ h.atEnd fd = true) :
    Advance P p c v G (G.setLoc p h) where
  others q hq := G.loc_setLoc_of_ne hq h
  cur _ _ := rfl
  leak := rfl
  noted := by rw [← hnoted, Division.loc_setLoc_self]
  size _ := le_rfl
  ends fd := by
    rw [Division.loc_setLoc_self]
    rcases hend fd with ⟨hnone, hsame⟩ | hsome
    · exact .inl ⟨hnone, fun he => .inl (hsame.trans he)⟩
    · exact .inr hsome

omit [DecidableEq R] in
lemma goes_of_loc {Q : c.Reply → Holding F R γ → Prop} {G' : Division ι F R γ}
    (hS' : Sound P (w.perform p c).2 G') (hQ : Q (w.perform p c).1 h) (hloc : G'.loc p = h)
    (hA : Advance P p c (w.perform p c).1 G G') : Goes P w G p c Q :=
  ⟨G', hS', hloc ▸ hQ, hA⟩

omit [DecidableEq R] in
lemma goes_seek (hS : Sound P w G) {Q : c.Reply → Holding F R γ → Prop} {v : c.Reply}
    {atEnd : F → Bool} (hperform : w.perform p c = (v, w.seek p fd n)) (hnoted : c.noted = [])
    (hat : ∀ gd, atEnd gd = true → ∃ n, .eof gd n ∈ (G.loc p).own)
    (hend : ∀ gd, c.endSeen gd v = none ∧ atEnd gd = (G.loc p).atEnd gd ∨ c.endSeen gd v = some
      ((G.blocks gd).flatten.length : ℤ) ∧ (G.loc p).atEnd gd = false ∧ atEnd gd = true)
    (hQ : Q v { G.loc p with pos := update (G.loc p).pos fd n, atEnd := atEnd }) :
    Goes P w G p c Q := by
  unfold Goes
  rw [hperform]
  refine ⟨G.setLoc p { G.loc p with pos := update (G.loc p).pos fd n, atEnd := atEnd },
    hS.move rfl ?_ rfl rfl rfl rfl (hS.keeps p).noted hat, ?_,
    advance_setLoc (by rw [hnoted]; rfl) hend⟩
  · rw [← hS.pos p]
    rfl
  · rw [Division.loc_setLoc_self]
    exact hQ

omit [Fintype ι] [Fintype F] in
lemma perform_lseek (w : World ι F) (p : ι) (fd : F) (offset : ℤ) (whence : Whence)
    (hoff : 0 ≤ w.target p fd offset whence) :
    w.perform p (.lseek fd offset whence) =
      (w.target p fd offset whence, w.seek p fd (w.target p fd offset whence).toNat) :=
  if_neg (Int.not_lt.mpr hoff)

section

variable (hS : Sound P w G)
include hS

lemma goes_lseek {offset : ℤ} {whence : Whence} {Q : ℤ → Holding F R γ → Prop}
    (hc : P.Allows (G.loc p) (.lseek fd offset whence) Q) :
    Goes P w G p (.lseek fd offset whence) Q := by
  have hat := (hS.keeps p).atEnd
  cases whence with
  | seekSet =>
    obtain ⟨hoff, hQ⟩ := hc
    exact hS.goes_seek (perform_lseek w p fd offset .seekSet hoff) rfl hat
      (fun _ => .inl ⟨rfl, rfl⟩) hQ
  | seekCur =>
    obtain ⟨hoff, hQ⟩ := hc
    have htarget : w.target p fd offset .seekCur = (G.loc p).pos fd + offset := by
      rw [World.target, hS.pos p]
    have hperform := perform_lseek w p fd offset .seekCur (by rw [htarget]; exact hoff)
    rw [htarget] at hperform
    exact hS.goes_seek hperform rfl hat (fun _ => .inl ⟨rfl, rfl⟩) hQ
  | seekEnd =>
    obtain ⟨rfl, n, hn, hfalse, hQ⟩ := hc
    have hlen : n = (G.blocks fd).flatten.length := hS.eq_of_eof_mem hn
    have htarget : w.target p fd 0 .seekEnd = n := by
      rw [World.target, hS.content, hlen, add_zero]
    have hperform := perform_lseek w p fd 0 .seekEnd (by rw [htarget]; exact Int.natCast_nonneg n)
    rw [htarget, Int.toNat_natCast] at hperform
    refine hS.goes_seek hperform rfl ?_ ?_ hQ
    · exact (forall_update_iff (G.loc p).atEnd fun gd x =>
        x = true → ∃ n, .eof gd n ∈ (G.loc p).own).mpr ⟨fun _ => ⟨n, hn⟩, fun gd _ => hat gd⟩
    · intro gd
      by_cases hfd : gd = fd
      · subst hfd
        exact .inr ⟨by simp [Sys.endSeen, hlen], hfalse, update_self ..⟩
      · exact .inl ⟨if_neg (Ne.symm hfd), update_of_ne hfd ..⟩

lemma goes_read {Q : Bytes → Holding F R γ → Prop} (hc : P.Allows (G.loc p) (.read fd n) Q) :
    Goes P w G p (.read fd n) Q := by
  obtain ⟨o, b, i, hb, hpos, hin, hQ⟩ := hc
  have hread : readAt (w.file fd) (w.pos p fd) n = readAt b i n := by
    rw [hS.content, hS.pos, hpos, readAt_block (hS.mem_blocks hb) hin]
  have hperform : w.perform p (.read fd n) =
      (readAt b i n, w.seek p fd ((G.loc p).pos fd + n)) := by
    rw [World.perform, hread, length_readAt hin, hS.pos]
  exact hS.goes_seek hperform rfl (hS.keeps p).atEnd (fun _ => .inl ⟨rfl, rfl⟩) hQ

lemma goes_note {o : ℕ} (hc : P.Allows (G.loc p) (.note fd o) Q) : Goes P w G p (.note fd o) Q := by
  obtain ⟨⟨b, hb⟩, hQ⟩ := hc
  refine goes_of_loc
    (hS.move (h := { G.loc p with noted := (fd, o) :: (G.loc p).noted }) rfl ?_ rfl rfl rfl rfl ?_
      (hS.keeps p).atEnd) hQ (G.loc_setLoc_self p _) (advance_setLoc rfl fun _ => .inl ⟨rfl, rfl⟩)
  · change w.pos = update w.pos p (G.loc p).pos
    rw [← hS.pos p, update_eq_self]
  · intro x hx
    rcases List.mem_cons.mp hx with rfl | hx
    · exact ⟨b, hb⟩
    · exact (hS.keeps p).noted x hx

omit [DecidableEq R] in
lemma perform_write (hn : (G.loc p).pos fd = n) :
    w.perform p (.write fd bs) = (bs.length, { w.seek p fd (n + bs.length) with
      file := update w.file fd (writeAt (G.blocks fd).flatten n bs) }) := by
  rw [World.perform, hS.content, hS.pos, hn]

omit [DecidableEq R] in
lemma goes_blocks {Q : ℕ → Holding F R γ → Prop} {cs : List Bytes}
    (hQ : Q bs.length h) (hn : (G.loc p).pos fd = n)
    (hflat : writeAt (G.blocks fd).flatten n bs = cs.flatten) (hne : ∀ b ∈ cs, b ≠ [])
    (hcells : allCells (update G.blocks fd cs) + (G.loc p).own = allCells G.blocks + h.own)
    (hpos : h.pos = update (G.loc p).pos fd (n + bs.length)) (hview : h.view = (G.loc p).view)
    (hheld : h.held = (G.loc p).held) (hsame : h.noted = (G.loc p).noted)
    (hnoted : ∀ x ∈ h.noted, ∃ b, .block x.1 x.2 b ∈ h.own)
    (hend : ∀ gd, h.atEnd gd = true → ∃ n, .eof gd n ∈ h.own) (hown : (G.loc p).own ≠ 0)
    (hlen : (G.blocks fd).flatten.length ≤ cs.flatten.length)
    (hat : ∀ gd, (G.loc p).atEnd gd = true → h.atEnd gd = true ∨
      gd = fd ∧ (G.blocks fd).flatten.length < cs.flatten.length) :
    Goes P w G p (.write fd bs) Q := by
  have hself : (G.setLoc p h).loc p = h := G.loc_setLoc_self p h
  have hblocks : update G.blocks fd cs fd = cs := update_self ..
  unfold Goes
  rw [hS.perform_write hn]
  refine ⟨{ G.setLoc p h with blocks := update G.blocks fd cs }, hS.change ?_ ?_ hcells ?_ rfl
    hview hheld hnoted hend ?_, hself.symm ▸ hQ, fun q hq => G.loc_setLoc_of_ne hq h,
    fun _ _ => rfl, rfl, (congrArg (·.noted) hself).trans hsame, ?_, fun gd => .inl ⟨rfl, ?_⟩⟩
  · intro gd
    by_cases hfd : gd = fd
    · subst hfd
      simp only [update_self, hflat]
    · simp only [update_of_ne hfd]
      exact hS.content gd
  · exact (forall_update_iff G.blocks fun _ cs => ∀ b ∈ cs, b ≠ []).mpr
      ⟨hne, fun gd _ => hS.nonempty gd⟩
  · rw [hpos, ← hS.pos p]
    rfl
  · intro hnone
    rw [hheld] at hnone
    exact absurd ((hS.keeps p).idle hnone) hown
  · exact (forall_update_iff G.blocks fun gd cs =>
      (G.blocks gd).flatten.length ≤ cs.flatten.length).mpr ⟨hlen, fun _ _ => le_rfl⟩
  · intro he
    rcases hat gd he with hgd | ⟨rfl, hlt⟩
    · exact .inl ((congrArg (·.atEnd gd) hself).trans hgd)
    · exact .inr (by simpa only [hblocks] using hlt)

omit [DecidableEq R] in
lemma goes_write {Q : ℕ → Holding F R γ → Prop} {o i : ℕ} {b : Bytes}
    {rest : Multiset (Cell F)} (hown : (G.loc p).own = .block fd o b ::ₘ rest)
    (hpos : (G.loc p).pos fd = o + i) (hin : i + bs.length ≤ b.length)
    (hQ : Q bs.length { G.loc p with
        own := .block fd o (writeAt b i bs) ::ₘ rest
        pos := update (G.loc p).pos fd ((G.loc p).pos fd + bs.length) }) :
    Goes P w G p (.write fd bs) Q := by
  have hmem : (o, b) ∈ blocksFrom 0 (G.blocks fd) :=
    hS.mem_blocks (mem_add.mpr (.inl (hown ▸ mem_cons_self _ _)))
  obtain ⟨cs, others, hflat, hblocks, hlen, hold, hnew⟩ := exists_allCells_write hmem hin
  refine hS.goes_blocks hQ hpos hflat.symm ?_ ?_ (by rw [hpos]) rfl rfl rfl ?_ ?_
    (hown ▸ cons_ne_zero) hlen.ge fun _ => .inl
  · intro c hc
    rcases hblocks c hc with hc | rfl
    · exact hS.nonempty fd c hc
    · have hb : b ≠ [] := by
        obtain ⟨pre, post, hsplit, -⟩ := mem_blocksFrom.mp hmem
        exact hS.nonempty fd b (hsplit ▸ List.mem_append_right _ List.mem_cons_self)
      rw [← List.length_pos_iff_ne_nil, length_writeAt hin]
      exact List.length_pos_iff_ne_nil.mpr hb
  · rw [hnew, hold, hown]
    simp only [← singleton_add]
    abel
  · intro x hx
    obtain ⟨c, hc⟩ := (hS.keeps p).noted x hx
    rw [hown, mem_cons] at hc
    rcases hc with hc | hc
    · cases hc
      exact ⟨_, mem_cons_self _ _⟩
    · exact ⟨c, mem_cons_of_mem hc⟩
  · intro gd hgd
    obtain ⟨n, hn⟩ := (hS.keeps p).atEnd gd hgd
    rw [hown, mem_cons] at hn
    rcases hn with hn | hn
    · cases hn
    · exact ⟨n, mem_cons_of_mem hn⟩

omit [DecidableEq R] in
lemma goes_append {Q : ℕ → Holding F R γ → Prop} {rest : Multiset (Cell F)}
    (hown : (G.loc p).own = .eof fd n ::ₘ rest) (hpos : (G.loc p).pos fd = n) (hbs : bs ≠ [])
    (hQ : Q bs.length { G.loc p with
        own := .eof fd (n + bs.length) ::ₘ .block fd n bs ::ₘ rest
        pos := update (G.loc p).pos fd (n + bs.length)
        atEnd := update (G.loc p).atEnd fd false }) : Goes P w G p (.write fd bs) Q := by
  have hn : n = (G.blocks fd).flatten.length :=
    hS.eq_of_eof_mem (p := p) (hown ▸ mem_cons_self _ _)
  have hflat : (G.blocks fd ++ [bs]).flatten = (G.blocks fd).flatten ++ bs := by
    rw [List.flatten_append, List.flatten_singleton]
  have hlt : (G.blocks fd).flatten.length < (G.blocks fd ++ [bs]).flatten.length := by
    rw [hflat, List.length_append]
    exact Nat.lt_add_of_pos_right (List.length_pos_iff_ne_nil.mpr hbs)
  obtain ⟨others, hold, hnew⟩ := exists_allCells_append G.blocks fd bs
  rw [← hn] at hold hnew
  refine hS.goes_blocks hQ hpos (by rw [hflat, hn, writeAt_length]) ?_ ?_ rfl rfl rfl rfl ?_ ?_
    (hown ▸ cons_ne_zero) hlt.le fun gd he => ?_
  · intro c hc
    rw [List.mem_append, List.mem_singleton] at hc
    rcases hc with hc | rfl
    · exact hS.nonempty fd c hc
    · exact hbs
  · rw [hnew, hold, hown]
    simp only [← singleton_add]
    abel
  · intro x hx
    obtain ⟨c, hc⟩ := (hS.keeps p).noted x hx
    rw [hown, mem_cons] at hc
    rcases hc with hc | hc
    · cases hc
    · exact ⟨c, mem_cons_of_mem (mem_cons_of_mem hc)⟩
  · intro gd hgd
    by_cases hfd : gd = fd
    · subst hfd
      exact ⟨_, mem_cons_self _ _⟩
    · obtain ⟨m, hm⟩ := (hS.keeps p).atEnd gd (by simpa only [update_of_ne hfd] using hgd)
      rw [hown, mem_cons] at hm
      rcases hm with hm | hm
      · cases hm
        exact absurd rfl hfd
      · exact ⟨m, mem_cons_of_mem (mem_cons_of_mem hm)⟩
  · by_cases hfd : gd = fd
    · exact .inr ⟨hfd, hlt⟩
    · exact .inl ((update_of_ne hfd ..).trans he)

omit [DecidableEq ι] [DecidableEq F] [DecidableEq R] in
lemma held_of_not_blocked [DecidableEq ι] [DecidableEq F] {mode : LockMode}
    (hat : P.At r fd start len) (hfree : ¬ w.Blocked p (.setlkw fd mode start len)) {q : ι}
    (hq : q ≠ p) {m : LockMode} (hheld : (G.loc q).held r = some (m, g)) :
    mode = .read ∧ m = .read := by
  by_contra hnot
  obtain ⟨rfl, rfl, rfl⟩ := hat
  have hlock : w.lock q (P.file r) (P.start r) = some m :=
    (hS.locks q _ _ _).mpr ⟨r, g, hheld, rfl, inRange_start _ _⟩
  exact hfree ⟨q, hq, P.start r, m, inRange_start _ _, hlock, hnot⟩

end

omit [Fintype ι] [Fintype F] [Fintype R] in
lemma advance_setRes {v : c.Reply} {cs : Multiset (Cell F)}
    (hnoted : h.noted = c.noted ++ (G.loc p).noted) (hseen : ∀ fd, c.endSeen fd v = none)
    (hend : h.atEnd = (G.loc p).atEnd) (hcur : P.rank r = 0 → g = G.cur r) :
    Advance P p c v G ((G.setLoc p h).setRes r cs g) := by
  have hA : Advance P p c v G (G.setLoc p h) :=
    advance_setLoc hnoted fun fd => .inl ⟨hseen fd, congrFun hend fd⟩
  refine ⟨hA.others, fun r' hr' => ?_, hA.leak, hA.noted, hA.size, hA.ends⟩
  by_cases hrr : r' = r
  · subst hrr
    exact (update_self ..).trans (hcur hr')
  · exact update_of_ne hrr ..

section

variable (hS : Sound P w G)
include hS

lemma goes_lockWrite (hat : P.At r fd start len)
    (hfree : ¬ w.Blocked p (.setlkw fd .write start len)) (hmine : (G.loc p).held r = none)
    (hQ : Q () { G.loc p with
        own := G.pool r + (G.loc p).own
        held := update (G.loc p).held r (some (.write, G.cur r)) }) :
    Goes P w G p (.setlkw fd .write start len) Q := by
  have hK := hS.keeps p
  have hothers : ∀ q, q ≠ p → (G.loc q).held r = none := by
    intro q hq
    cases hheld : (G.loc q).held r with
    | none => rfl
    | some x => exact absurd (hS.held_of_not_blocked hat hfree hq hheld).1 (by decide)
  have hkeep : Keeps (update G.pool r 0) (update G.cur r (G.cur r)) { G.loc p with
      own := G.pool r + (G.loc p).own
      held := update (G.loc p).held r (some (.write, G.cur r)) } := by
    refine hK.relock rfl nofun ?_ (fun _ _ _ _ => rfl) ?_ ?_ ?_ ?_
    · rintro g' ⟨⟩
      exact ⟨rfl, rfl⟩
    · intro hnone
      refine hK.view fun r' g hr' => hnone r' g ((update_of_ne ?_ ..).trans hr')
      rintro rfl
      rw [hmine] at hr'
      cases hr'
    · intro x hx
      obtain ⟨b, hb⟩ := hK.noted x hx
      exact ⟨b, mem_add.mpr (.inr hb)⟩
    · intro gd hgd
      obtain ⟨n, hn⟩ := hK.atEnd gd hgd
      exact ⟨n, mem_add.mpr (.inr hn)⟩
    · intro hnone
      cases (update_self ..).symm.trans (hnone r)
  exact goes_of_loc (hS.relock hat hkeep (zero_add _) rfl rfl (.inl hothers)
    fun hv => absurd rfl (hv _)) hQ (G.loc_setLoc_self p _)
    (advance_setRes rfl (fun _ => rfl) rfl fun _ => rfl)

lemma goes_lockRead (hat : P.At r fd start len)
    (hfree : ¬ w.Blocked p (.setlkw fd .read start len)) (hinv : P.inv r (G.cur r) (G.pool r))
    (hro : ∀ r' g, (G.loc p).held r' ≠ some (.read, g))
    (hQ : Q () { G.loc p with
        view := G.pool r
        held := update (G.loc p).held r (some (.read, G.cur r)) }) :
    Goes P w G p (.setlkw fd .read start len) Q := by
  have hK := hS.keeps p
  have hwriter : ∀ q, q ≠ p → ∀ g, (G.loc q).held r ≠ some (.write, g) := by
    intro q hq g hheld
    exact absurd (hS.held_of_not_blocked hat hfree hq hheld).2 (by decide)
  have hkeep : Keeps (update G.pool r (G.pool r)) (update G.cur r (G.cur r)) { G.loc p with
      view := G.pool r
      held := update (G.loc p).held r (some (.read, G.cur r)) } := by
    refine hK.relock rfl ?_ nofun (fun r' g _ hr' => absurd hr' (hro r' g))
      (fun hnone => absurd (update_self ..) (hnone r _)) hK.noted hK.atEnd fun hnone => ?_
    · rintro g' ⟨⟩
      exact ⟨rfl, rfl⟩
    · cases (update_self ..).symm.trans (hnone r)
  exact goes_of_loc
    (hS.relock hat hkeep rfl rfl rfl (.inr ⟨rfl, rfl, nofun, hwriter⟩) fun _ => hinv) hQ
    (G.loc_setLoc_self p _) (advance_setRes rfl (fun _ => rfl) rfl fun _ => rfl)

lemma goes_setlkw {mode : LockMode} (hc : P.Allows (G.loc p) (.setlkw fd mode start len) Q)
    (hfree : ¬ w.Blocked p (.setlkw fd mode start len)) :
    Goes P w G p (.setlkw fd mode start len) Q := by
  obtain ⟨r, hat, hrank, hro, hk⟩ := hc
  have hmine : (G.loc p).held r = none := by
    by_contra hr
    exact absurd (hrank r hr) (Nat.lt_irrefl _)
  have hinv : P.inv r (G.cur r) (G.pool r) := by
    refine hS.free r fun q g hheld => ?_
    by_cases hq : q = p
    · subst hq
      rw [hmine] at hheld
      cases hheld
    · exact absurd (hS.held_of_not_blocked hat hfree hq hheld).2 (by decide)
  have hQ := hk (G.cur r) (G.pool r) hinv
  cases mode with
  | write => exact hS.goes_lockWrite hat hfree hmine (by simpa using hQ)
  | read => exact hS.goes_lockRead hat hfree hinv (hro rfl) (by simpa using hQ)

lemma goes_unlck (hc : P.Allows (G.loc p) (.unlck fd start len) Q) :
    Goes P w G p (.unlck fd start len) Q := by
  obtain ⟨r, g, g', cs, rest, hat, hheld, ⟨r₁, hne₁, hr₁⟩, hrank, hend, hown, hinv, hnoted, hQ⟩ :=
    hc
  have hK := hS.keeps p
  have hothers : ∀ q, q ≠ p → (G.loc q).held r = none := fun q hq =>
    hS.excl p q r g hq.symm hheld
  have hkeep : Keeps (update G.pool r cs) (update G.cur r g') { G.loc p with
      own := rest
      held := update (G.loc p).held r none } := by
    refine hK.relock rfl nofun nofun (fun _ _ _ _ => rfl) ?_ hnoted ?_ ?_
    · intro hnone
      refine hK.view fun r' g hr' => hnone r' g ((update_of_ne ?_ ..).trans hr')
      rintro rfl
      rw [hheld] at hr'
      cases hr'
    · intro gd hgd
      exact absurd hgd (by simp [hend gd])
    · intro hnone
      exact absurd ((update_of_ne hne₁ ..).symm.trans (hnone r₁)) hr₁
  have hcells : cs + rest = G.pool r + (G.loc p).own := by
    rw [(hK.writer r g hheld).2, zero_add, hown]
  refine goes_of_loc (hS.relock hat hkeep hcells rfl rfl (.inl hothers) fun _ => hinv) hQ
    (G.loc_setLoc_self p _) (advance_setRes rfl (fun _ => rfl) rfl fun hzero => ?_)
  -- an inner lock has a rank above that of the locks still held
  have hlt := hrank r₁ hne₁ hr₁
  omega

lemma perform {Q : c.Reply → Holding F R γ → Prop} (hc : P.Allows (G.loc p) c Q)
    (hfree : ¬ w.Blocked p c) : Goes P w G p c Q := by
  cases c with
  | lseek fd offset whence => exact hS.goes_lseek hc
  | read fd n => exact hS.goes_read hc
  | write fd bs =>
    rcases hc with ⟨o, b, i, rest, hown, hpos, hin, hQ⟩ | ⟨n, rest, hown, hpos, hbs, hQ⟩
    · exact hS.goes_write hown hpos hin hQ
    · exact hS.goes_append hown hpos hbs hQ
  | fstat fd => exact hc.elim
  | setlkw fd mode start len => exact hS.goes_setlkw hc hfree
  | unlck fd start len => exact hS.goes_unlck hc
  | note fd o => exact hS.goes_note hc

lemma finish {g' : γ} (hat : P.At r fd start len) (hr : P.Returns (G.loc p) r g g') :
    ∃ G', Sound P (w.perform p (.unlck fd start len)).2 G' ∧ (∀ r, (G'.loc p).held r = none) ∧
      (∀ q, q ≠ p → G'.loc q = G.loc q) ∧ G'.leak = G.leak ∧ G'.blocks = G.blocks ∧
      g = G.cur r ∧ G'.cur = update G.cur r g' := by
  obtain ⟨honly, hend, hcase⟩ := hr
  have hK := hS.keeps p
  have hnone : update (G.loc p).held r none = fun _ => none := by
    funext r'
    by_cases hrr : r' = r
    · subst hrr
      exact update_self ..
    · exact (update_of_ne hrr ..).trans (honly r' hrr)
  have hkeep : ∀ pool cur, Keeps pool cur (.empty (G.loc p).pos : Holding F R γ) := fun _ _ =>
    ⟨nofun, nofun, fun _ => rfl, nofun, nofun, fun _ => rfl⟩
  rcases hcase with ⟨hheld, hinv⟩ | ⟨hheld, hown, rfl⟩
  · obtain ⟨hg, hpool⟩ := hK.writer r g hheld
    have hothers : ∀ q, q ≠ p → (G.loc q).held r = none := fun q hq =>
      hS.excl p q r g hq.symm hheld
    refine ⟨(G.setLoc p (.empty (G.loc p).pos)).setRes r (G.loc p).own g',
      hS.relock (v := none) hat (hkeep _ _) ?_ rfl hnone.symm (.inl hothers) (fun _ => hinv), ?_,
      fun q hq => G.loc_setLoc_of_ne hq _, rfl, rfl, hg, rfl⟩
    · rw [hpool, zero_add]
      exact add_zero _
    · exact fun r => congrArg (·.held r) (G.loc_setLoc_self p _)
  · obtain ⟨hg, -⟩ := hK.reader r g' hheld
    have hwriter : ∀ q, q ≠ p → ∀ g, (G.loc q).held r ≠ some (.write, g) := by
      intro q hq g hg
      have hp := hS.excl q p r g hq hg
      rw [hheld] at hp
      cases hp
    have hinv : P.inv r (G.cur r) (G.pool r) := hS.free r fun q g hg => by
      by_cases hq : q = p
      · subst hq
        rw [hheld] at hg
        cases hg
      · exact hwriter q hq g hg
    refine ⟨(G.setLoc p (.empty (G.loc p).pos)).setRes r (G.pool r) g',
      hS.relock (v := none) hat (hkeep _ _) ?_ rfl hnone.symm (.inr ⟨rfl, hg, nofun, hwriter⟩)
        (fun _ => hg ▸ hinv), ?_, fun q hq => G.loc_setLoc_of_ne hq _, rfl, rfl, hg, rfl⟩
    · rw [hown]
      rfl
    · exact fun r => congrArg (·.held r) (G.loc_setLoc_self p _)

end

end Sound

/-! ## One program alone -/

/-- The call has changed the one resource `d` says, or none. -/
def Changes [DecidableEq R] (P : Protocol F R γ) (d : Option (R × γ × γ)) (cur cur' : R → γ) :
    Prop :=
  match d with
  | none => ∀ r, P.rank r = 0 → cur' r = cur r
  | some (r, g, g') =>
    (P.rank r = 0 → g = cur r) ∧ ∀ r', P.rank r' = 0 → cur' r' = update cur r g' r'

section Alone

variable [Fintype ι] [DecidableEq ι] [Fintype F] [DecidableEq F] [Fintype R] [DecidableEq R]
  {E α : Type} {P : Protocol F R γ} {Φ : α → Option (R × γ × γ) → Prop}
  {Ψ : E → Holding F R γ → Prop} {p : ι}

/-- How a call ends that was run to its end. -/
def EndsIn (P : Protocol F R γ) (Φ : α → Option (R × γ × γ) → Prop) (Ψ : E → Holding F R γ → Prop)
    (p : ι) (G G' : Division ι F R γ) : Except E α → Prop
  | .ok a => ∃ d, Φ a d ∧ (∀ r, (G'.loc p).held r = none) ∧ Changes P d G.cur G'.cur
  | .error e => Ψ e (G'.loc p) ∧ ∀ r, P.rank r = 0 → G'.cur r = G.cur r

omit [Fintype ι] [DecidableEq ι] [Fintype F] [DecidableEq F] [Fintype R] in
lemma EndsIn.of_cur_eq {G G₁ G' : Division ι F R γ} {out : Except E α}
    (hcur : ∀ r, P.rank r = 0 → G₁.cur r = G.cur r) (hend : EndsIn P Φ Ψ p G₁ G' out) :
    EndsIn P Φ Ψ p G G' out := by
  cases out with
  | error e => exact ⟨hend.1, fun r hr => (hend.2 r hr).trans (hcur r hr)⟩
  | ok a =>
    obtain ⟨d, hΦ, hidle, hch⟩ := hend
    refine ⟨d, hΦ, hidle, ?_⟩
    cases d with
    | none => exact fun r hr => (hch r hr).trans (hcur r hr)
    | some x =>
      obtain ⟨r, g, g'⟩ := x
      refine ⟨fun hr => (hch.1 hr).trans (hcur r hr), fun r' hr' => (hch.2 r' hr').trans ?_⟩
      by_cases hrr : r' = r
      · subst hrr
        rw [update_self, update_self]
      · rw [update_of_ne hrr, update_of_ne hrr, hcur r' hr']

omit [DecidableEq ι] [DecidableEq F] [DecidableEq R] in
lemma Sound.not_blocked {w : World ι F} {G : Division ι F R γ} (hS : Sound P w G)
    (hothers : ∀ q, q ≠ p → ∀ r, (G.loc q).held r = none) (c : Sys F) : ¬ w.Blocked p c := by
  intro hb
  cases c with
  | setlkw fd mode start len =>
    obtain ⟨q, hq, b, m, -, hlock, -⟩ := hb
    obtain ⟨r, g, hr, -⟩ := (hS.locks q fd b m).mp hlock
    rw [hothers q hq r] at hr
    cases hr
  | _ => exact hb

lemma Safe.exec {q : FileProg F E α} {h : Holding F R γ} (hsafe : Safe P Φ Ψ q h) :
    ∀ {w : World ι F} {G : Division ι F R γ}, Sound P w G → G.loc p = h →
      (∀ q, q ≠ p → ∀ r, (G.loc q).held r = none) →
      ∃ n out w' G', q.exec (World.perform p) n w = some (out, w') ∧ Sound P w' G' ∧
        (∀ q, q ≠ p → G'.loc q = G.loc q) ∧ G'.leak = G.leak ∧ EndsIn P Φ Ψ p G G' out := by
  induction hsafe with
  | @ret a h hidle ha =>
    rintro w G hS rfl -
    exact ⟨0, .ok a, w, G, rfl, hS, fun _ _ => rfl, rfl, none, ha, hidle, fun _ _ => rfl⟩
  | @fail e h he =>
    rintro w G hS rfl -
    exact ⟨0, .error e, w, G, rfl, hS, fun _ _ => rfl, rfl, he, fun _ _ => rfl⟩
  | @call c k h Q hc hk ih =>
    rintro w G hS rfl hothers
    obtain ⟨G₁, hS₁, hQ, hA⟩ := hS.perform hc (hS.not_blocked hothers c)
    obtain ⟨n, out, w', G', hexec, hS', hloc, hleak, hend⟩ := ih _ _ hQ hS₁ rfl fun q hq r => by
      rw [hA.others q hq]
      exact hothers q hq r
    exact ⟨n + 1, out, w', G', hexec, hS', fun q hq => (hloc q hq).trans (hA.others q hq),
      hleak.trans hA.leak, hend.of_cur_eq hA.cur⟩
  | loop hr ih =>
    rintro w G hS rfl hothers
    obtain ⟨n, out, w', G', hexec, hrest⟩ := ih hS rfl hothers
    exact ⟨n + 1, out, w', G', hexec, hrest⟩
  | @finish fd start len a h r g g' hat hr ha =>
    rintro w G hS rfl hothers
    obtain ⟨G', hS', hidle, hloc, hleak, -, hg, hcur⟩ := hS.finish hat hr
    refine ⟨1, .ok a, _, G', rfl, hS', hloc, hleak, some (r, g, g'), ha, hidle, fun _ => hg, ?_⟩
    intro r' _
    rw [hcur]

end Alone

end UnixPrograms
