import UnixPrograms.Printd.Scanning

/-!
# The parts of the response in the buffer

What `printer_status` makes of the status line, the header and the IPP header, according to what of
them is in the buffer.  When it has to get more, `datsz` is wrong from then on, since `readmore`
returns an offset and not a number of bytes (`Waiting.spoils_getMore`).
-/

namespace UnixPrograms.Status

open Function List Prog

open Prog

/-! ## When the size of the data is wrong -/

/-- At some point `datsz` was not the number of bytes read. -/
def Spoiled (m : Mem) : Prop := ∃ p ∈ m.log, p.1 ≠ p.2

variable {m : Mem} {bufsz i cp j : ℕ} {bs rest : Bytes} {len : ℤ} {r : Response}

lemma Spoiled.run (c : Cmd) (h : Spoiled m) : Spoiled (run c m).2 := by
  obtain ⟨p, hp, hne⟩ := h
  cases c with
  | load a | realloc size | getDatsz => exact ⟨p, hp, hne⟩
  | store a b | tread a n =>
    rw [Status.run]
    split
    · exact ⟨p, hp, hne⟩
    · exact ⟨p, hp, hne⟩
  | setDatsz n => exact ⟨p, mem_cons_of_mem _ hp, hne⟩

/-- Whatever the program does, at its end `datsz` has been wrong. -/
def Spoils {α : Type} (q : Code α) (m : Mem) : Prop := Gives run q m fun _ m' => Spoiled m'

lemma Spoiled.spoils (h : Spoiled m) {α : Type} (q : Code α) : Spoils q m :=
  fun _ _ hends => hends.invariant (I := Spoiled) (fun c _ hs => hs.run c) h

lemma Spoils.bind {α β : Type} {q : Code α} (h : Spoils q m) (f : α → Code β) :
    Spoils (q.bind f) m :=
  Gives.bind h fun a _ hs => hs.spoils (f a)

/-! ## Getting more -/

/-- There is more to come, and so far `datsz` is right. -/
structure Waiting (m : Mem) : Prop where
  more : ∃ c cs, [] ∉ c :: cs ∧ m.fd = (c :: cs).map .bytes
  received_eq : m.received = m.datsz

lemma ends_readmore {off : ℕ} {c : Bytes} {cs : List Bytes} (hcs : [] ∉ c :: cs)
    (hfd : m.fd = (c :: cs).map .bytes) (hoff : off < bufsz + IOBUFSZ) :
    ∃ n bufsz' m', Ends run (readmore off bufsz) m (.ok (some (off + n), bufsz'), m') ∧
      m'.datsz = m.datsz ∧ m'.received = m.received + n := by
  have hread : ∀ (bsz : ℕ) (m₁ : Mem), off < bsz → m₁.fd = m.fd → ∃ (n : ℕ) (m' : Mem),
      Ends run (tread off (bsz - off)) m₁ (.ok (n : ℤ), m') ∧ 0 < n ∧
        m'.datsz = m₁.datsz ∧ m'.received = m₁.received + n := by
    intro bsz m₁ hbsz hm₁
    obtain ⟨cs', hcs', -, hne, -⟩ := readFd_map_bytes (Nat.sub_pos_of_lt hbsz) hcs
    rw [← hfd, ← hm₁] at hcs'
    exact ⟨_, _, ends_tread hcs', length_pos_iff.mpr hne, rfl, rfl⟩
  rw [readmore]
  simp only [bind_eq]
  split
  · obtain ⟨n, m', hends, hn, hdatsz, hreceived⟩ :=
      hread (bufsz + IOBUFSZ) { m with size := bufsz + IOBUFSZ } hoff rfl
    refine ⟨n, bufsz + IOBUFSZ, m', ?_, hdatsz, hreceived⟩
    rw [ends_bind (ends_realloc _), pure_eq_ret, ret_bind, ends_bind hends,
      if_pos (Int.natCast_pos.mpr hn)]
    exact ends_ret.mpr rfl
  · rename_i hlt
    obtain ⟨n, m', hends, hn, hdatsz, hreceived⟩ := hread bufsz m (Nat.not_le.mp hlt) rfl
    refine ⟨n, bufsz, m', ?_, hdatsz, hreceived⟩
    rw [pure_eq_ret, ret_bind, ends_bind hends, if_pos (Int.natCast_pos.mpr hn)]
    exact ends_ret.mpr rfl

lemma ends_readmore_none {off : ℕ} (hfd : m.fd = []) (hoff : off < bufsz) :
    ∃ m', Ends run (readmore off bufsz) m (.ok (none, bufsz), m') ∧ m'.log = m.log := by
  have hread : readFd (bufsz - off) m.fd = (.ok [], []) := by rw [hfd, readFd]
  refine ⟨{ m with fd := [] }, ?_, rfl⟩
  rw [readmore]
  simp only [bind_eq]
  rw [if_neg (Nat.not_le.mpr hoff), pure_eq_ret, ret_bind, ends_bind (ends_tread hread)]
  exact ends_ret.mpr rfl

lemma Waiting.spoils_getMore (h : Waiting m) (hpos : 0 < i) (hi : i < bufsz + IOBUFSZ) :
    Spoils (getMore i bufsz) m := by
  obtain ⟨c, cs, hcs, hfd⟩ := h.more
  obtain ⟨n, bufsz', m', hends, hdatsz, hreceived⟩ := ends_readmore hcs hfd hi
  rw [Spoils, getMore, bind_eq, gives_bind hends]
  simp only [bind_eq]
  rw [gives_bind ends_getDatsz, gives_bind (ends_setDatsz _)]
  refine Spoiled.spoils ⟨_, mem_cons_self, ?_⟩ _
  have := h.received_eq
  change m'.datsz + (i + n) ≠ m'.received
  omega

lemma ends_getMore_none (hfd : m.fd = []) (hi : i < bufsz) :
    ∃ m', Ends run (getMore i bufsz) m (.ok none, m') ∧ m'.log = m.log := by
  obtain ⟨m', hends, hlog⟩ := ends_readmore_none hfd hi
  refine ⟨m', ?_, hlog⟩
  rw [getMore, bind_eq, ends_bind hends]
  exact ends_ret.mpr rfl

lemma ends_moreHeader (hi : i < m.datsz) :
    Ends run (moreHeader cp i bufsz) m (.ok (some (cp, bufsz)), m) := by
  rw [moreHeader, bind_eq, ends_bind ends_getDatsz, if_neg (Nat.not_le.mpr hi)]
  exact ends_ret.mpr rfl

lemma Waiting.spoils_moreHeader (h : Waiting m) (hpos : 0 < i) (hi : i < bufsz + IOBUFSZ)
    (hdatsz : m.datsz ≤ i) : Spoils (moreHeader cp i bufsz) m := by
  rw [Spoils, moreHeader, bind_eq, gives_bind ends_getDatsz, if_pos hdatsz, bind_eq]
  exact (h.spoils_getMore hpos hi).bind _

/-! ## The length field -/

/-- The buffer behind the data is clear. -/
def Clear (m : Mem) : Prop := ∀ a, m.datsz ≤ a → m.buf a = 0

lemma Waiting.spoils_findLength (h : Waiting m) (hpos : 0 < cp) (hcp : cp < bufsz + IOBUFSZ)
    (hdatsz : m.datsz ≤ cp) : Spoils (findLength cp cp bufsz) m := by
  intro x m' hends
  rw [findLength] at hends
  have hround := ends_loop.mp hends
  rw [unroll] at hround
  simp only [bind_eq, bind_assoc] at hround
  rcases Nat.lt_or_ge cp m.size with hsize | hsize
  · rw [ends_skipToC_bind hsize, if_neg fun hc => Nat.not_lt.mpr hdatsz hc.2.2,
      ends_bind ends_getDatsz, if_pos hdatsz] at hround
    simp only [bind_assoc] at hround
    exact (h.spoils_getMore hpos hcp).bind _ _ _ hround
  · exact ((ends_skipToC_outside hsize).bind_error _).gives_error (fun _ m' =>
      Spoiled m') _ _ hround

lemma gives_getLength_none (hclear : Clear m) (hsize : m.datsz ≤ m.size)
    (hat : At m.buf (cp + 15) bs) (hcp : cp + 15 + bs.length = m.datsz) (hnone : number bs = none) :
    Gives run (getLength cp) m fun x m' => x.1 = m.datsz + 1 ∧
      ∃ buf, m' = { m with buf := buf } := by
  obtain ⟨sp, ds, rfl, hsp, hds⟩ := exists_of_number_none hnone
  rw [length_append, ← Nat.add_assoc] at hcp
  rcases Nat.lt_or_ge m.datsz m.size with hlt | hge
  · have hat' : At m.buf (cp + 15) (sp ++ (ds ++ [0])) := by
      rw [← append_assoc, at_append, length_append, ← Nat.add_assoc, hcp]
      exact ⟨hat, hclear _ le_rfl, trivial⟩
    refine (ends_getLength hat' hsp hds (by decide) (fun _ => by decide) (by omega)).gives ?_
    exact ⟨by rw [hcp], _, rfl⟩
  · exact (ends_getLength_outside hat hsp hds (by omega)).gives_error _

/-- The search for `Content-Length:`, if the number is not among the bytes: more is needed now, or
it is as soon as the number has ended at the NUL behind the data. -/
lemma Waiting.gives_findLength (h : Waiting m) (hclear : Clear m) (hsize : m.datsz ≤ m.size)
    (hpos : 0 < cp) (hbufsz : m.datsz < bufsz + IOBUFSZ) (hat : At m.buf cp bs)
    (hcp : cp + bs.length = m.datsz) (hnone : lengthField bs = none) :
    Gives run (findLength cp cp bufsz) m fun x m' => Spoiled m' ∨
      ∃ len buf, x = some (m.datsz + 1, m.datsz + 1, len, bufsz) ∧ m' = { m with buf := buf } := by
  induction bs generalizing cp with
  | nil =>
    change cp = m.datsz at hcp
    exact fun x m' hends => .inl (h.spoils_findLength hpos (hcp ▸ hbufsz) hcp.ge x m' hends)
  | cons c cs ih =>
    rw [length_cons] at hcp
    rw [lengthField] at hnone
    have hzero : m.buf (cp + (c :: cs).length) = 0 := by
      apply hclear
      rw [length_cons]
      omega
    have hcmp := ends_strncasecmp_or contentLength hat (by decide) hzero
      (by rw [length_cons]; omega)
    have hsize' : cp < m.size := by omega
    have hcp' : cp < m.datsz := by omega
    by_cases hc : m.buf cp = 67 ∨ m.buf cp = 99
    · rcases hcmp with hcmp | hcmp
      · intro x m' hends
        rw [ends_findLength_C hsize' hcp' hc hcmp] at hends
        split at hends
        · rename_i hbegins
          rw [if_pos hbegins] at hnone
          have hlen : 15 ≤ cs.length + 1 := length_contentLength ▸ length_le_of_beginsWith hbegins
          have hrest : cp + 15 + ((c :: cs).drop 15).length = m.datsz := by
            rw [length_drop, length_cons]
            omega
          have hget := gives_getLength_none hclear hsize (At.drop hat hlen) hrest hnone
          obtain ⟨y, m₁, hy, hret⟩ := hends.of_bind
          obtain ⟨hcp₁, buf, rfl⟩ := hget y m₁ hy
          obtain ⟨hx, rfl⟩ := Prod.mk.inj (ends_ret.mp hret)
          exact .inr ⟨y.2, buf, by rw [Except.ok.inj hx, hcp₁], rfl⟩
        · rename_i hbegins
          rw [if_neg hbegins] at hnone
          exact ih (Nat.succ_pos cp) hat.2 (by omega) hnone x m' hends
      · exact (ends_findLength_error hsize' hcp' hc hcmp).gives_error _
    · have hbegins : ¬ beginsWith contentLength (c :: cs) = true := by
        intro hbegins
        apply hc
        rw [hat.1]
        exact head_of_beginsWith hbegins
      rw [if_neg hbegins] at hnone
      intro x m' hends
      rw [ends_findLength_skip hsize' hcp' (not_or.mp hc)] at hends
      exact ih (Nat.succ_pos cp) hat.2 (by omega) hnone x m' hends

/-! ## The end of the header -/

lemma ends_findEnd (bufsz : ℕ) {known : Bytes} (hat : At m.buf i bs)
    (hi : i + bs.length = m.datsz) (hsize : m.datsz ≤ m.size) (h : headerEnd bs = some known)
    (hne : known ≠ []) :
    ∃ j, Ends run (findEnd i i bufsz) m (.ok (some (j, j, bufsz)), m) ∧
      j + known.length = m.datsz ∧ At m.buf j known := by
  obtain ⟨j, hscan, hj, hknown⟩ := ends_scanEnd_found hat hi hsize h
  have hpos := length_pos_iff.mpr hne
  have hlt : j < m.datsz := by omega
  refine ⟨j, ?_, hj, hknown⟩
  refine ends_loop.mpr ?_
  rw [unroll]
  simp only [bind_eq, bind_assoc]
  rw [ends_bind hscan, ends_bind (ends_moreHeader hlt)]
  exact ends_ret.mpr rfl

lemma Waiting.spoils_findEnd (h : Waiting m) (hat : At m.buf i bs) (hi : i + bs.length = m.datsz)
    (hsize : m.datsz ≤ m.size) (hbufsz : m.datsz < bufsz + IOBUFSZ)
    (hend : headerEnd bs = some []) : Spoils (findEnd i i bufsz) m := by
  obtain ⟨j, hscan, hj, -⟩ := ends_scanEnd_found hat hi hsize hend
  change j = m.datsz at hj
  have hlen := length_of_headerEnd hend
  intro x m' hends
  rw [findEnd] at hends
  have hround := ends_loop.mp hends
  rw [unroll] at hround
  simp only [bind_eq, bind_assoc] at hround
  rw [ends_bind hscan] at hround
  exact (h.spoils_moreHeader (by omega) (by omega) hj.ge).bind _ _ _ hround

lemma ends_scanEnd_stop (hle : m.datsz ≤ i + 2) :
    Ends run (scanEnd i i) m (.ok (false, i, i), m) := by
  refine ends_loop.mpr ?_
  rw [unroll]
  simp only [bind_eq, bind_assoc]
  rw [ends_bind ends_getDatsz, if_neg (Nat.not_lt.mpr hle)]
  exact ends_ret.mpr rfl

/-- If the inner loop has stopped there, the search goes on for ever: it asks for more only behind
the last byte. -/
lemma not_ends_findEnd_of_scanEnd (hscan : Ends run (scanEnd i i) m (.ok (false, j, j), m))
    (hlt : j < m.datsz) (hle : m.datsz ≤ j + 2) (r : Except Fault (Option (ℕ × ℕ × ℕ)) × Mem) :
    ¬ Ends run (findEnd i i bufsz) m r := by
  intro hends
  rw [findEnd] at hends
  have hround := ends_loop.mp hends
  rw [unroll] at hround
  simp only [bind_eq, bind_assoc] at hround
  rw [ends_bind hscan, ends_bind (ends_moreHeader hlt)] at hround
  refine not_ends_of_loop ?_ r hround
  rw [ends_bind (ends_scanEnd_stop hle), ends_bind (ends_moreHeader hlt)]
  exact ends_ret.mpr rfl

lemma not_ends_findEnd (hat : At m.buf i bs) (hne : bs ≠ []) (hi : i + bs.length = m.datsz)
    (hsize : m.datsz ≤ m.size) (hend : headerEnd bs = none)
    (r : Except Fault (Option (ℕ × ℕ × ℕ)) × Mem) : ¬ Ends run (findEnd i i bufsz) m r := by
  obtain ⟨j, hscan, hlt, hle⟩ := ends_scanEnd_none hat hne hi hsize hend
  exact not_ends_findEnd_of_scanEnd hscan hlt hle r

/-! ## The IPP header -/

lemma ends_ippSuccess {hp : ℕ} (hat : At m.buf hp bs) (hlen : 8 ≤ bs.length)
    (hsize : hp + 8 ≤ m.size) (jobid : ℕ) :
    Ends run (ippSuccess jobid hp) m (.ok (ippOk jobid bs), m) := by
  match bs, hlen with
  | v₀ :: v₁ :: s₀ :: s₁ :: r₀ :: r₁ :: r₂ :: r₃ :: bs, _ =>
    obtain ⟨-, -, hs₀, hs₁, hr₀, hr₁, hr₂, hr₃, -⟩ := hat
    simp only [Nat.add_assoc, Nat.reduceAdd] at hs₀ hs₁ hr₀ hr₁ hr₂ hr₃
    rw [ippSuccess, loadIpp]
    simp only [bind_eq, bind_assoc]
    rw [ends_bind (ends_loadByte (by omega)), ends_bind (ends_loadByte (by omega)),
      ends_bind (ends_loadByte (by omega)), ends_bind (ends_loadByte (by omega)),
      ends_bind (ends_loadByte (by omega)), ends_bind (ends_loadByte (by omega)), pure_eq_ret,
        ret_bind,
      hs₀, hs₁, hr₀, hr₁, hr₂, hr₃, ippOk]
    split
    · rename_i hid
      exact ends_ret.mpr (by rw [decide_eq_false hid, Bool.and_false])
    · rename_i hid
      exact ends_ret.mpr (by rw [decide_eq_true (not_not.mp hid), Bool.and_true])

lemma gives_loadByte (m : Mem) (a : ℕ) :
    Gives run (loadByte a) m fun _ m' => m' = m ∧ a < m.size := by
  rcases Nat.lt_or_ge a m.size with h | h
  · exact (ends_loadByte h).gives ⟨rfl, h⟩
  · exact (ends_loadByte_outside h).gives_error _

lemma gives_ippSuccess (m : Mem) (jobid hp : ℕ) :
    Gives run (ippSuccess jobid hp) m fun _ _ => hp + 8 ≤ m.size := by
  rw [ippSuccess, loadIpp]
  simp only [bind_eq, bind_assoc]
  refine (gives_loadByte m _).bind ?_
  rintro _ m ⟨rfl, -⟩
  refine (gives_loadByte m _).bind ?_
  rintro _ m ⟨rfl, -⟩
  refine (gives_loadByte m _).bind ?_
  rintro _ m ⟨rfl, -⟩
  refine (gives_loadByte m _).bind ?_
  rintro _ m ⟨rfl, -⟩
  refine (gives_loadByte m _).bind ?_
  rintro _ m ⟨rfl, -⟩
  exact (gives_loadByte m _).bind fun _ _ hlast _ _ _ => hlast.2

/-! ## Behind the status line -/

def afterHeader (jobid j : ℕ) (len : ℤ) (bufsz : ℕ) : Code Bool := do
  match ← moreBody j j len bufsz with
  | none => return false
  | some cp => ippSuccess jobid cp

lemma ends_ippStatus_iff {known : Bytes} (jobid bufsz : ℕ) (hat : At m.buf cp bs)
    (hcp : cp + bs.length = m.datsz) (hsize : m.datsz ≤ m.size)
    (hscan : scan bs = some (len, known)) (hne : known ≠ []) :
    ∃ buf j, (∀ r, Ends run (ippStatus jobid cp bufsz) m r ↔
        Ends run (afterHeader jobid j len bufsz) { m with buf := buf } r) ∧
      j + known.length = m.datsz ∧ At buf j known ∧ ∀ a, m.datsz ≤ a → buf a = m.buf a := by
  rw [scan] at hscan
  obtain ⟨⟨len', rest⟩, hlen, hscan⟩ := Option.bind_eq_some_iff.mp hscan
  obtain ⟨known', hend, hpair⟩ := Option.map_eq_some_iff.mp hscan
  obtain ⟨rfl, rfl⟩ := Prod.mk.inj hpair
  obtain ⟨buf, i, hfind, hi, hrest, hbuf⟩ := ends_findLength bufsz hat hcp hsize hlen
  have hlt := length_of_headerEnd hend
  have hmore : Ends run (moreHeader i i bufsz) { m with buf := buf } (.ok (some (i, bufsz)), _) :=
    ends_moreHeader (by change i < m.datsz; omega)
  obtain ⟨j, hfindEnd, hj, hknown⟩ := ends_findEnd (m := { m with buf := buf }) bufsz hrest hi hsize
    hend hne
  refine ⟨buf, j, fun r => ?_, hj, hknown, hbuf⟩
  rw [ippStatus, bind_eq, ends_bind hfind]
  simp only [bind_eq]
  rw [ends_bind hmore, ends_bind hfindEnd]
  rfl

lemma Waiting.spoils_ippStatus (h : Waiting m) (hclear : Clear m) (hsize : m.datsz ≤ m.size)
    (jobid bufsz : ℕ) (hpos : 0 < cp) (hbufsz : m.datsz + 1 < bufsz + IOBUFSZ)
    (hat : At m.buf cp bs) (hcp : cp + bs.length = m.datsz)
    (hscan : ∀ len known, scan bs = some (len, known) → known = []) :
    Spoils (ippStatus jobid cp bufsz) m := by
  have hwait : ∀ buf, Waiting { m with buf := buf } := fun buf => ⟨h.more, h.received_eq⟩
  rw [Spoils, ippStatus, bind_eq]
  cases hlen : lengthField bs with
  | none =>
    refine (h.gives_findLength hclear hsize hpos (by omega) hat hcp hlen).bind ?_
    rintro x m' (hspoiled | ⟨len, buf, rfl, rfl⟩)
    · exact hspoiled.spoils _
    · exact ((hwait buf).spoils_moreHeader (Nat.succ_pos _) hbufsz (Nat.le_succ _)).bind _
  | some p =>
    obtain ⟨len, rest⟩ := p
    obtain ⟨buf, i, hfind, hi, hrest, hbuf⟩ := ends_findLength bufsz hat hcp hsize hlen
    rw [gives_bind hfind]
    simp only [bind_eq]
    cases hrestne : rest with
    | nil =>
      rw [hrestne] at hi
      change i = m.datsz at hi
      exact ((hwait buf).spoils_moreHeader (by omega) (by omega) hi.ge).bind _
    | cons b bs' =>
      have hne : rest ≠ [] := hrestne ▸ cons_ne_nil b bs'
      have hpos' := length_pos_iff.mpr hne
      have hmore : Ends run (moreHeader i i bufsz) { m with buf := buf }
          (.ok (some (i, bufsz)), _) :=
        ends_moreHeader (by change i < m.datsz; omega)
      rw [gives_bind hmore]
      cases hend : headerEnd rest with
      | none =>
        intro x m' hends
        obtain ⟨y, m₁, hy, -⟩ := hends.of_bind
        exact absurd hy (not_ends_findEnd (m := { m with buf := buf }) hrest hne hi hsize hend _)
      | some known =>
        obtain rfl : known = [] := hscan len known (by simp [scan, hlen, hend])
        exact ((hwait buf).spoils_findEnd hrest hi hsize (by change m.datsz < _; omega) hend).bind _

lemma ends_afterHeader {jobid : ℕ} (hat : At m.buf j bs) (hbs : 8 ≤ bs.length)
    (hsize : j + 8 ≤ m.size) (hlen : len ≤ (m.datsz : ℤ) - j) :
    Ends run (afterHeader jobid j len bufsz) m (.ok (ippOk jobid bs), m) := by
  have hmore : Ends run (moreBody j j len bufsz) m (.ok (some j), m) := by
    rw [moreBody, bind_eq, ends_bind ends_getDatsz, if_neg (Int.not_lt.mpr hlen)]
    exact ends_ret.mpr rfl
  rw [afterHeader, bind_eq, ends_bind hmore]
  exact ends_ippSuccess hat hbs hsize jobid

lemma ends_afterHeader_none (jobid : ℕ) (hfd : m.fd = []) (hj : j < bufsz)
    (hlen : (m.datsz : ℤ) - j < len) :
    ∃ m', Ends run (afterHeader jobid j len bufsz) m (.ok false, m') ∧ m'.log = m.log := by
  obtain ⟨m', hends, hlog⟩ := ends_getMore_none hfd hj
  refine ⟨m', ?_, hlog⟩
  rw [afterHeader, moreBody]
  simp only [bind_eq, bind_assoc]
  rw [ends_bind ends_getDatsz, if_pos hlen, bind_assoc, ends_bind hends]
  exact ends_ret.mpr rfl

lemma Waiting.spoils_afterHeader (h : Waiting m) (jobid : ℕ) (hpos : 0 < j)
    (hj : j < bufsz + IOBUFSZ) (hlen : (m.datsz : ℤ) - j < len) :
    Spoils (afterHeader jobid j len bufsz) m := by
  rw [Spoils, afterHeader, moreBody]
  simp only [bind_eq, bind_assoc]
  rw [gives_bind ends_getDatsz, if_pos hlen, bind_assoc]
  exact (h.spoils_getMore hpos hj).bind _

lemma gives_afterHeader {jobid : ℕ} (hlen : len ≤ (m.datsz : ℤ) - j) :
    Gives run (afterHeader jobid j len bufsz) m fun _ _ => j + 8 ≤ m.size := by
  rw [afterHeader, moreBody]
  simp only [bind_eq, bind_assoc]
  rw [gives_bind ends_getDatsz, if_neg (Int.not_lt.mpr hlen)]
  exact gives_ippSuccess m jobid j

/-! ## The status line -/

def afterStatusLine (jobid : ℕ) (r : Response) : Code Bool :=
  if httpInfo r.code then printerStatus jobid
  else if httpSuccess r.code then ippStatus jobid r.statusLine.length IOBUFSZ
  else do
    let datsz ← getDatsz
    storeByte datsz 0
    return false

lemma at_statusLine {buf : ℕ → UInt8} (h : At buf 0 (r.statusLine ++ rest)) :
    At buf 8 [32] ∧ At buf 9 (decimal r.code) ∧ buf (9 + (decimal r.code).length) = 32 ∧
      At buf (9 + (decimal r.code).length + 1) r.reason ∧ At buf r.statusLine.length rest := by
  have hline := (at_append.mp h).1
  rw [Response.statusLine, append_assoc, at_append] at hline
  obtain ⟨hspace, hcode⟩ := hline.2
  obtain ⟨hdecimal, hspace', hreason⟩ := at_append.mp hcode
  have hrest := (at_append.mp h).2
  rw [Nat.zero_add] at hrest
  exact ⟨⟨hspace, trivial⟩, hdecimal, hspace', hreason, hrest⟩

lemma Response.length_statusLine (r : Response) :
    r.statusLine.length = 9 + (decimal r.code).length + 1 + r.reason.length := by
  rw [statusLine]
  simp only [length_append, length_cons, length_nil]
  omega

lemma ends_statusCode (h : At m.buf 0 (r.statusLine ++ 13 :: rest))
    (hsize : r.statusLine.length < m.size) :
    ∃ buf, Ends run statusCode m (.ok (some (r.code, r.statusLine.length)), { m with buf := buf }) ∧
      At buf r.statusLine.length (0 :: rest) ∧ ∀ a, r.statusLine.length < a → buf a = m.buf a := by
  have hline := r.length_statusLine
  obtain ⟨hspace, hcode, hspace', hreason, hcr, hrest⟩ := at_statusLine h
  have hfirst : isSpace (m.buf 9) = false := by
    obtain ⟨d, ds, hds⟩ := exists_cons_of_ne_nil (decimal_ne_nil r.code)
    rw [hds] at hcode
    rw [hcode.1]
    exact isSpace_of_isDigit (isDigit_of_mem_decimal (n := r.code) (hds ▸ mem_cons_self))
  have hstatcode : Ends run (skipWhile isSpace 8) m (.ok 9, m) :=
    ends_skipWhile hspace (by simp [isSpace]) hfirst (by change 9 < _; omega)
  have hcp : Ends run (skipWhile isDigit 9) m (.ok (9 + (decimal r.code).length), m) :=
    ends_skipWhile hcode (fun c hc => isDigit_of_mem_decimal hc) (by rw [hspace']; decide)
      (by omega)
  have hpos := length_pos_iff.mpr (decimal_ne_nil r.code)
  -- the NUL behind the status code
  obtain ⟨buf₁, hbuf₁⟩ : ∃ buf, buf = Function.update m.buf (9 + (decimal r.code).length) 0 :=
    ⟨_, rfl⟩
  have hstore₁ : Ends run (storeByte (9 + (decimal r.code).length) 0) m
      (.ok (), { m with buf := buf₁ }) := hbuf₁ ▸ ends_storeByte 0 (by omega)
  have hreason₁ : At buf₁ (9 + (decimal r.code).length + 1) r.reason := by
    rw [hbuf₁, at_update 0 (.inl (Nat.lt_succ_self _))]
    exact hreason
  have hcr₁ : buf₁ r.statusLine.length = 13 := by
    rw [hbuf₁, update_of_ne (by omega)]
    exact hcr
  have hend : Ends run (skipWhile (fun c => c ≠ 13 ∧ c ≠ 10) (9 + (decimal r.code).length + 1))
      { m with buf := buf₁ } (.ok r.statusLine.length, { m with buf := buf₁ }) := by
    rw [hline] at hcr₁ hsize ⊢
    refine ends_skipWhile hreason₁ (fun c hc => ?_) (by simp [hcr₁]) hsize
    have := r.reason_line
    simp only [ne_eq, decide_eq_true_eq]
    exact ⟨fun h => this.1 (h ▸ hc), fun h => this.2 (h ▸ hc)⟩
  -- the NUL behind the status line
  obtain ⟨buf₂, hbuf₂⟩ : ∃ buf, buf = Function.update buf₁ r.statusLine.length 0 := ⟨_, rfl⟩
  have hstore₂ : Ends run (storeByte r.statusLine.length 0) { m with buf := buf₁ }
      (.ok (), { m with buf := buf₂ }) := hbuf₂ ▸ ends_storeByte 0 hsize
  have hstring : At buf₂ 9 (decimal r.code ++ [0]) := by
    rw [hbuf₂, at_update 0 (.inr (by simp; omega)), at_append, hbuf₁, at_update 0 (.inr le_rfl)]
    exact ⟨hcode, update_self _ _ _, trivial⟩
  have hzero : 0 ∉ decimal r.code := fun hmem => absurd (isDigit_of_mem_decimal hmem) (by decide)
  have hatoi : Ends run (atoi 9) { m with buf := buf₂ }
      (.ok (r.code : ℤ), { m with buf := buf₂ }) := by
    rw [← atoiValue_decimal (n := r.code) (r.three_digits.2.trans_lt (by decide))]
    exact ends_atoi hstring hzero (by change _ < m.size; omega)
  refine ⟨buf₂, ?_, ⟨hbuf₂ ▸ update_self _ _ _, ?_⟩, fun a ha => ?_⟩
  · rw [statusCode]
    simp only [bind_eq]
    rw [ends_bind hstatcode, ends_bind hcp, if_neg (by omega), ends_bind hstore₁, ends_bind hend,
      ends_bind hstore₂, ends_bind hatoi]
    exact ends_ret.mpr rfl
  · rw [hbuf₂, at_update 0 (.inl (Nat.lt_succ_self _)), hbuf₁, at_update 0 (.inl (by omega))]
    exact hrest
  · rw [hbuf₂, update_of_ne (by omega), hbuf₁, update_of_ne (by omega)]

lemma ends_round {jobid : ℕ} {m₁ m₂ m₃ : Mem} {nr code : ℤ} {cp : ℕ}
    {res : Except Fault Bool × Mem} (hread : Ends run (tread 0 IOBUFSZ) m (.ok nr, m₁))
    (hpos : 0 < nr) (hdatsz : Ends run (setDatsz nr.toNat) m₁ (.ok (), m₂))
    (hstatus : Ends run statusCode m₂ (.ok (some (code, cp)), m₃)) :
    Ends run (printerStatus jobid) m res ↔ Ends run (
      if httpInfo code then printerStatus jobid
      else if httpSuccess code then ippStatus jobid cp IOBUFSZ
      else do
        let datsz ← getDatsz
        storeByte datsz 0
        return false) m₃ res := by
  refine ends_loop.trans ?_
  rw [unroll]
  simp only [bind_eq, bind_assoc]
  rw [ends_bind hread, if_pos hpos, bind_assoc, ends_bind hdatsz, bind_assoc]
  refine (ends_bind hstatus).trans ?_
  dsimp only
  split
  · rfl
  · split
    · rw [bind_assoc]
      exact iff_of_eq (congrArg (Ends run · _ res) (bind_ret _))
    · simp only [bind_assoc, pure_eq_ret, ret_bind]

lemma ends_printerStatus_iff {D : Bytes} {fd : List Arrival} (jobid : ℕ)
    (hread : readFd IOBUFSZ m.fd = (.ok D, fd)) (hD : D = r.statusLine ++ 13 :: rest)
    (hsize : m.size = IOBUFSZ) :
    ∃ buf, (∀ res, Ends run (printerStatus jobid) m res ↔ Ends run (afterStatusLine jobid r)
        ⟨buf, m.size, fd, D.length, m.received + D.length,
          (D.length, m.received + D.length) :: m.log⟩ res) ∧
      At buf r.statusLine.length (0 :: rest) ∧ ∀ a, D.length ≤ a → buf a = m.buf a := by
  have hle := length_readFd_le hread
  have hlen : D.length = r.statusLine.length + 1 + rest.length := by
    rw [hD, length_append, length_cons]
    omega
  have hdata : At (putBytes m.buf 0 D) 0 (r.statusLine ++ 13 :: rest) := hD ▸ at_putBytes m.buf 0 D
  obtain ⟨buf, hstatus, hat, hbuf⟩ :=
    ends_statusCode (m := ⟨putBytes m.buf 0 D, m.size, fd, D.length,
    m.received + D.length, (D.length, m.received + D.length) :: m.log⟩) hdata
    (by change _ < m.size; omega)
  refine ⟨buf, fun res => ?_, hat, fun a ha => ?_⟩
  · exact ends_round (ends_tread hread) (Int.natCast_pos.mpr (by omega)) (ends_setDatsz _) hstatus
  · rw [hbuf a (by omega)]
    exact putBytes_of_le (by omega)

end UnixPrograms.Status
