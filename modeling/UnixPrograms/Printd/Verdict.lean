import UnixPrograms.Printd.Headers

/-!
# The verdict on the printer's response

The verdict is right, with `datsz` right at every step, if and only if what `printer_status` needs
of the response comes with the first read (`conforms_iff_firstReadOk`).
-/

namespace UnixPrograms.Status

open List

open Prog

/-! ## Behind the status line -/

lemma lengthField_cons {c : UInt8} (hc : ¬ (c = 67 ∨ c = 99)) (cs : Bytes) :
    lengthField (c :: cs) = lengthField cs := by
  rw [lengthField, if_neg fun h => hc (head_of_beginsWith h)]

/-- A response of which the status line and the bytes `rest` behind it were in the first read, and
of which the pieces `cs` have yet to arrive. -/
structure Split (r : Response) (rest : Bytes) (cs : List Bytes) : Prop where
  pieces : [] ∉ cs
  bytes_eq : 13 :: 10 :: rest ++ cs.flatten = 13 :: 10 :: Response.afterStatus r.body r.fields
  fits : r.statusLine.length + 2 + rest.length ≤ IOBUFSZ

/-- The state behind the status line: `malloc` had found `buf`. -/
structure Line (r : Response) (rest : Bytes) (cs : List Bytes) (buf : ℕ → UInt8) (m : Mem) :
    Prop where
  size_eq : m.size = IOBUFSZ
  fd_eq : m.fd = cs.map .bytes
  datsz_eq : m.datsz = r.statusLine.length + 2 + rest.length
  received_eq : m.received = m.datsz
  log_eq : m.log = [(m.datsz, m.datsz)]
  at_line : At m.buf r.statusLine.length (0 :: 10 :: rest)
  behind : ∀ a, m.datsz ≤ a → m.buf a = buf a

/-- The program returns `b`, and `datsz` was right each time. -/
def EndsWell (q : Code Bool) (m : Mem) (b : Bool) : Prop :=
  ∃ m', Ends run q m (.ok b, m') ∧ ∀ p ∈ m'.log, p.1 = p.2

variable {m : Mem} {q : Code Bool}

lemma EndsWell.of_log {m' : Mem} {b : Bool} {n : ℕ} (h : Ends run q m (.ok b, m'))
    (hlog : m'.log = [(n, n)]) : EndsWell q m b := by
  refine ⟨m', h, fun p hp => ?_⟩
  rw [hlog, mem_singleton] at hp
  rw [hp]

lemma Spoils.not_endsWell (h : Spoils q m) (b : Bool) : ¬ EndsWell q m b := by
  rintro ⟨m', hends, hlog⟩
  obtain ⟨p, hp, hne⟩ := h b m' hends
  exact hne (hlog p hp)

lemma EndsWell.unique {b b' : Bool} (h : EndsWell q m b) (h' : EndsWell q m b') : b = b' := by
  obtain ⟨m₁, hends, -⟩ := h
  obtain ⟨m₂, hends', -⟩ := h'
  exact Except.ok.inj (Prod.mk.inj (hends.unique hends')).1

section Cases

variable {r : Response} {rest : Bytes} {cs : List Bytes} {buf : ℕ → UInt8} {m : Mem}

lemma Split.flatten_eq_nil (hs : Split r rest cs) : cs.flatten = [] ↔ cs = [] := by
  constructor
  · intro h
    cases cs with
    | nil => rfl
    | cons c cs =>
      rw [flatten_cons, append_eq_nil_iff] at h
      exact absurd (h.1 ▸ mem_cons_self) hs.pieces
  · rintro rfl
    rfl

lemma Split.eq_bytes_iff (hs : Split r rest cs) :
    r.statusLine ++ 13 :: 10 :: rest = r.bytes ↔ cs = [] := by
  rw [Response.bytes, ← hs.bytes_eq, append_cancel_left_eq, ← hs.flatten_eq_nil]
  constructor
  · intro h
    exact append_right_eq_self.mp h.symm
  · intro h
    rw [h, append_nil]

lemma Line.waiting (hm : Line r rest cs buf m) (hs : Split r rest cs) (hne : cs ≠ []) :
    Waiting m := by
  obtain ⟨c, cs', rfl⟩ := exists_cons_of_ne_nil hne
  exact ⟨⟨c, cs', hs.pieces, hm.fd_eq⟩, hm.received_eq⟩

lemma scan_zero (rest : Bytes) : scan (0 :: 10 :: rest) = scan (13 :: 10 :: rest) := by
  rw [scan, scan, lengthField_cons (c := 0) (by decide), lengthField_cons (c := 13) (by decide)]

lemma Line.info_iff (hm : Line r rest cs buf m) (hs : Split r rest cs) (jobid : ℕ) :
    EndsWell (printerStatus jobid) m false ↔ cs = [] := by
  have hround : ∀ res, Ends run (printerStatus jobid) m res ↔ _ := fun res => ends_loop
  simp only [unroll, bind_eq, Prog.bind_assoc] at hround
  constructor
  · intro h
    by_contra hne
    obtain ⟨c, cs', rfl⟩ := exists_cons_of_ne_nil hne
    obtain ⟨cs'', hread, -, hpiece, -⟩ :=
      readFd_map_bytes (show 0 < IOBUFSZ by decide) hs.pieces
    rw [← hm.fd_eq] at hread
    have hn := length_pos_iff.mpr hpiece
    refine Spoils.not_endsWell (fun x m' hends => ?_) _ h
    rw [hround, ends_bind (ends_tread hread), if_pos (Int.natCast_pos.mpr hn), Prog.bind_assoc,
      ends_bind (ends_setDatsz _)] at hends
    refine Spoiled.spoils ⟨_, mem_cons_self, ?_⟩ _ x m' hends
    have hreceived := hm.received_eq
    have hdatsz := hm.datsz_eq
    change (List.length _ : ℤ).toNat ≠ m.received + List.length _
    omega
  · rintro rfl
    have hread : readFd IOBUFSZ m.fd = (.ok [], []) := by
      rw [hm.fd_eq]
      rfl
    have hends : Ends run (printerStatus jobid) m (.ok false, { m with fd := [] }) := by
      rw [hround, ends_bind (ends_tread hread)]
      exact ends_ret.mpr rfl
    exact .of_log hends hm.log_eq

lemma Line.error_iff (hm : Line r rest cs buf m) :
    EndsWell (do let datsz ← getDatsz; storeByte datsz 0; return false) m false ↔
      r.statusLine.length + 2 + rest.length < IOBUFSZ := by
  have hround : ∀ res,
      Ends run (do let datsz ← getDatsz; storeByte datsz 0; return false : Code Bool) m
      res ↔ Ends run ((storeByte m.datsz 0).bind fun _ => .ret false) m res :=
    fun res => ends_bind ends_getDatsz
  rw [← hm.datsz_eq, ← hm.size_eq]
  constructor
  · rintro ⟨m', hends, -⟩
    by_contra hge
    rw [hround] at hends
    exact ((ends_storeByte_outside 0 (Nat.not_lt.mp hge)).bind_error _).gives_error
      (fun _ _ => False)
      _ _ hends
  · intro hlt
    refine ⟨{ m with buf := Function.update m.buf m.datsz 0 }, ?_, fun p hp => ?_⟩
    · rw [hround, ends_bind (ends_storeByte 0 hlt)]
      exact ends_ret.mpr rfl
    · change p ∈ m.log at hp
      rw [hm.log_eq, mem_singleton] at hp
      rw [hp]

variable {known bs : Bytes} {len : ℤ} {jobid : ℕ}

lemma ippOk_append (h : 8 ≤ bs.length) (jobid : ℕ) (x : Bytes) :
    ippOk jobid (bs ++ x) = ippOk jobid bs := by
  match bs, h with
  | _ :: _ :: _ :: _ :: _ :: _ :: _ :: _ :: _, _ => rfl

lemma exists_ippOk_eq_false (h : bs.length < 8) (jobid : ℕ) :
    ∃ x : Bytes, (bs ++ x).length = 8 ∧ ippOk jobid (bs ++ x) = false := by
  have hseven : ∀ w : Bytes, w.length = 7 → ∃ b, ippOk jobid (w ++ [b]) = false := by
    intro w hw
    match w, hw with
    | [v₀, v₁, s₀, s₁, r₀, r₁, r₂], _ =>
      -- two request IDs, of which one at most is the job's
      by_cases hid : r₀.toNat * 2 ^ 24 + r₁.toNat * 2 ^ 16 + r₂.toNat * 2 ^ 8 = jobid
      · refine ⟨1, ?_⟩
        have hne : r₀.toNat * 2 ^ 24 + r₁.toNat * 2 ^ 16 + r₂.toNat * 2 ^ 8 + UInt8.toNat 1 ≠
            jobid := by
          have : UInt8.toNat 1 = 1 := rfl
          omega
        simp only [cons_append, nil_append, ippOk, decide_eq_false hne, Bool.and_false]
      · refine ⟨0, ?_⟩
        have hne : r₀.toNat * 2 ^ 24 + r₁.toNat * 2 ^ 16 + r₂.toNat * 2 ^ 8 + UInt8.toNat 0 ≠
            jobid := by
          rwa [UInt8.toNat_zero, Nat.add_zero]
        simp only [cons_append, nil_append, ippOk, decide_eq_false hne, Bool.and_false]
  obtain ⟨b, hb⟩ := hseven (bs ++ List.replicate (7 - bs.length) 0) (by simp; omega)
  refine ⟨List.replicate (7 - bs.length) 0 ++ [b], by simp; omega, ?_⟩
  rw [← append_assoc]
  exact hb

lemma length_of_ippOk (h : ippOk jobid bs = true) : 8 ≤ bs.length := by
  unfold ippOk at h
  split at h
  · simp only [length_cons]
    omega
  · cases h

/-- What has to be among the bytes of the first read of a successful response: the header and
something behind it; the IPP header too, if the length field that is found does not ask for more. -/
def BodyOk (jobid : ℕ) (r : Response) (first : Bytes) : Prop :=
  ∃ len known, scan (first.drop r.statusLine.length) = some (len, known) ∧ known ≠ [] ∧
    if len ≤ known.length then
      8 ≤ known.length ∨
        (first.length - known.length + 8 ≤ IOBUFSZ ∧ ∀ x, ippOk jobid (known ++ x) = false)
    else first = r.bytes ∧ ippOk jobid r.body = false

section Scanned

variable (hm : Line r rest cs buf m) (hs : Split r rest cs)
  (hscan : scan (13 :: 10 :: rest) = some (len, known)) (hne : known ≠ [])
include hm hs hscan hne

lemma Line.afterHeader (jobid : ℕ) :
    ∃ buf' j, (∀ b, EndsWell (ippStatus jobid r.statusLine.length IOBUFSZ) m b ↔
        EndsWell (afterHeader jobid j len IOBUFSZ) { m with buf := buf' } b) ∧
      j + known.length = m.datsz ∧ At buf' j known ∧ ∀ a, m.datsz ≤ a → buf' a = buf a := by
  have hcp : r.statusLine.length + (0 :: 10 :: rest : Bytes).length = m.datsz := by
    rw [hm.datsz_eq, length_cons, length_cons]
    omega
  obtain ⟨buf', j, hiff, hj, hknown, hbuf⟩ := ends_ippStatus_iff jobid IOBUFSZ hm.at_line hcp
    (by rw [hm.datsz_eq, hm.size_eq]; exact hs.fits) ((scan_zero rest).trans hscan) hne
  refine ⟨buf', j, fun b => ?_, hj, hknown, fun a ha => ?_⟩
  · simp only [EndsWell, hiff]
  · rw [hbuf a ha, hm.behind a ha]

lemma Line.endsWell_known (jobid : ℕ) (hlen : len ≤ known.length) {y : Bytes}
    (hy : At buf m.datsz y)
    (hlong : 8 ≤ (known ++ y).length) (hroom : m.datsz - known.length + 8 ≤ IOBUFSZ) :
    EndsWell (ippStatus jobid r.statusLine.length IOBUFSZ) m (ippOk jobid (known ++ y)) := by
  obtain ⟨buf', j, hiff, hj, hknown, hbuf⟩ := hm.afterHeader hs hscan hne jobid
  have hat : At buf' j (known ++ y) := at_append.mpr ⟨hknown, by rw [hj]; exact hy.congr hbuf⟩
  rw [hiff]
  refine .of_log (ends_afterHeader (m := { m with buf := buf' }) hat hlong ?_ ?_) hm.log_eq
  · change _ ≤ m.size
    rw [hm.size_eq]
    omega
  · change len ≤ (m.datsz : ℤ) - j
    omega

lemma Line.room_of_endsWell (hlen : len ≤ known.length) {b : Bool}
    (hwell : EndsWell (ippStatus jobid r.statusLine.length IOBUFSZ) m b) :
    m.datsz - known.length + 8 ≤ IOBUFSZ := by
  obtain ⟨buf', j, hiff, hj, -, -⟩ := hm.afterHeader hs hscan hne jobid
  obtain ⟨m', hends, -⟩ := (hiff b).mp hwell
  have hroom := gives_afterHeader (m := { m with buf := buf' })
    (by change len ≤ (m.datsz : ℤ) - j; omega) b m' hends
  change j + 8 ≤ m.size at hroom
  rw [hm.size_eq] at hroom
  omega

lemma Line.endsWell_more_iff (jobid : ℕ) (hlen : ¬ len ≤ known.length) (b : Bool) :
    EndsWell (ippStatus jobid r.statusLine.length IOBUFSZ) m b ↔ cs = [] ∧ b = false := by
  obtain ⟨buf', j, hiff, hj, -, -⟩ := hm.afterHeader hs hscan hne jobid
  have hlen' : (m.datsz : ℤ) - j < len := by omega
  have hscanned := length_of_scan hscan
  have hpos := length_pos_iff.mpr hne
  have hdatsz := hm.datsz_eq
  have hfits := hs.fits
  rw [length_cons, length_cons] at hscanned
  rw [hiff]
  by_cases hcs : cs = []
  · have hfd : m.fd = [] := by
      rw [hm.fd_eq, hcs, map_nil]
    obtain ⟨m', hends, hlog⟩ := ends_afterHeader_none (m := { m with buf := buf' }) jobid hfd
      (show j < IOBUFSZ by omega) hlen'
    have hwell := EndsWell.of_log hends (hlog.trans hm.log_eq)
    exact ⟨fun h => ⟨hcs, h.unique hwell⟩, fun h => h.2 ▸ hwell⟩
  · have hwait : Waiting { m with buf := buf' } :=
      ⟨(hm.waiting hs hcs).more, (hm.waiting hs hcs).received_eq⟩
    have hspoils := hwait.spoils_afterHeader jobid (show 0 < j by omega)
      (show j < IOBUFSZ + IOBUFSZ by omega) hlen'
    exact ⟨fun h => absurd h (hspoils.not_endsWell b), fun h => absurd h.1 hcs⟩

end Scanned

lemma Line.exists_scan (hm : Line r rest cs (fun _ => 0) m) (hs : Split r rest cs) {b : Bool}
    (hwell : EndsWell (ippStatus jobid r.statusLine.length IOBUFSZ) m b) :
    ∃ len known, scan (13 :: 10 :: rest) = some (len, known) ∧ known ≠ [] := by
  by_cases hcs : cs = []
  · obtain ⟨len, hresponse⟩ := scan_response r
    rw [← hs.bytes_eq, hcs, flatten_nil, append_nil] at hresponse
    refine ⟨len, r.body, hresponse, ne_nil_of_length_pos ?_⟩
    have := r.ipp_body
    omega
  · by_contra hnone
    have hscan : ∀ len known, scan (0 :: 10 :: rest) = some (len, known) → known = [] := by
      intro len known hscan
      by_contra hne
      exact hnone ⟨len, known, (scan_zero rest).symm.trans hscan, hne⟩
    have hdatsz := hm.datsz_eq
    have hfits := hs.fits
    have hline := r.length_statusLine
    have hspoils := (hm.waiting hs hcs).spoils_ippStatus hm.behind
      (by rw [hm.size_eq]; omega) jobid IOBUFSZ (by omega) (by omega) hm.at_line
      (by rw [length_cons, length_cons]; omega) hscan
    exact hspoils.not_endsWell b hwell

lemma Line.endsWell_of_bodyOk (hm : Line r rest cs buf m) (hs : Split r rest cs)
    (hok : BodyOk jobid r (r.statusLine ++ 13 :: 10 :: rest)) :
    EndsWell (ippStatus jobid r.statusLine.length IOBUFSZ) m (ippOk jobid r.body) := by
  obtain ⟨len, known, hscan, hne, hbody⟩ := hok
  rw [drop_left] at hscan
  have hbodyEq := body_of_scan hs.bytes_eq hscan
  have hscanned := length_of_scan hscan
  rw [length_cons, length_cons] at hscanned
  have hdatsz := hm.datsz_eq
  have hfits := hs.fits
  split at hbody
  · rename_i hlen
    rcases hbody with hknown | ⟨hroom, hfalse⟩
    · have hwell := hm.endsWell_known hs hscan hne jobid hlen (y := []) trivial
        (by rw [append_nil]; exact hknown) (by omega)
      rwa [append_nil, ← ippOk_append hknown jobid cs.flatten, ← hbodyEq] at hwell
    · -- whatever is behind the data, the verdict is bad
      obtain ⟨y, hy, hylen⟩ := exists_at buf m.datsz 8
      have hwell := hm.endsWell_known hs hscan hne jobid hlen hy (by rw [length_append]; omega)
        (by rw [length_append, length_cons, length_cons] at hroom; omega)
      rwa [hfalse, ← hfalse cs.flatten, ← hbodyEq] at hwell
  · rename_i hlen
    rw [hm.endsWell_more_iff hs hscan hne jobid hlen]
    exact ⟨hs.eq_bytes_iff.mp hbody.1, hbody.2⟩

/-- It is necessary, if the verdict is to be right whatever `malloc` finds. -/
lemma Split.bodyOk_of_endsWell (hs : Split r rest cs)
    (h : ∀ buf, ∃ m, Line r rest cs buf m ∧ EndsWell (ippStatus jobid r.statusLine.length IOBUFSZ)
      m (ippOk jobid r.body)) : BodyOk jobid r (r.statusLine ++ 13 :: 10 :: rest) := by
  obtain ⟨m, hm, hwell⟩ := h fun _ => 0
  obtain ⟨len, known, hscan, hne⟩ := hm.exists_scan hs hwell
  refine ⟨len, known, by rw [drop_left, hscan], hne, ?_⟩
  split
  · rename_i hlen
    by_cases hknown : 8 ≤ known.length
    · exact .inl hknown
    · have hroom := hm.room_of_endsWell hs hscan hne hlen hwell
      -- the verdict is that on any bytes that `malloc` can have left behind the data
      have hall : ∀ y, 8 ≤ (known ++ y).length → ippOk jobid (known ++ y) = ippOk jobid r.body := by
        intro y hy
        obtain ⟨m', hm', hwell'⟩ := h (putBytes (fun _ => 0) m.datsz y)
        have hdatsz : m.datsz = m'.datsz := hm.datsz_eq.trans hm'.datsz_eq.symm
        have hat := at_putBytes (fun _ => 0) m.datsz y
        rw [hdatsz] at hroom
        rw [hdatsz] at hat hm'
        exact (hm'.endsWell_known hs hscan hne jobid hlen hat hy hroom).unique hwell'
      obtain ⟨x, hx, hfalse⟩ := exists_ippOk_eq_false (Nat.not_le.mp hknown) jobid
      have hbody := hall x hx.ge
      refine .inr ⟨?_, fun y => ?_⟩
      · rw [length_append, length_cons, length_cons]
        have := hm.datsz_eq
        omega
      · by_contra htrue
        rw [Bool.not_eq_false] at htrue
        have := hall y (length_of_ippOk htrue)
        rw [htrue, ← hbody, hfalse] at this
        cases this
  · rename_i hlen
    obtain ⟨hcs, hfalse⟩ := (hm.endsWell_more_iff hs hscan hne jobid hlen _).mp hwell
    exact ⟨hs.eq_bytes_iff.mpr hcs, hfalse⟩

end Cases

/-! ## The whole response -/

def start (buf : ℕ → UInt8) (chunks : List Bytes) : Mem :=
  ⟨buf, IOBUFSZ, chunks.map .bytes, 0, 0, []⟩

def firstRead (chunks : List Bytes) : Bytes := (chunks.headD []).take IOBUFSZ

/-- Whatever `malloc` finds, `printer_status` ends with the verdict on the response, and at every
step `datsz` is the number of bytes received so far. -/
def Conforms (jobid : ℕ) (r : Response) (chunks : List Bytes) : Prop :=
  ∀ buf, EndsWell (printerStatus jobid) (start buf chunks) (verdict jobid r)

/-- What has to be in the first read: nothing may follow a response that says to continue, and a NUL
has to fit behind one with an error. -/
def FirstReadOk (jobid : ℕ) (r : Response) (first : Bytes) : Prop :=
  if httpInfo r.code then first = r.bytes
  else if httpSuccess r.code then BodyOk jobid r first
  else first.length < IOBUFSZ

lemma exists_line {r : Response} {chunks : List Bytes} (hchunks : [] ∉ chunks)
    (hbytes : chunks.flatten = r.bytes) (hstatus : r.statusLine ++ [13, 10] <+: firstRead chunks) :
    ∃ rest cs, firstRead chunks = r.statusLine ++ 13 :: 10 :: rest ∧ Split r rest cs ∧
      ∀ buf jobid, ∃ m, Line r rest cs buf m ∧ ∀ b, EndsWell (printerStatus jobid)
        (start buf chunks) b ↔
        EndsWell (afterStatusLine jobid r) m b := by
  obtain ⟨rest, hrest⟩ := hstatus
  rw [append_assoc] at hrest
  cases chunks with
  | nil => simp [firstRead] at hrest
  | cons c cs =>
    obtain ⟨cs', hread, hcs', -, hflat⟩ := readFd_map_bytes (show 0 < IOBUFSZ by decide) hchunks
    have hD : c.take IOBUFSZ = r.statusLine ++ 13 :: 10 :: rest := hrest.symm
    have hlen : (c.take IOBUFSZ).length = r.statusLine.length + 2 + rest.length := by
      rw [hD, length_append, length_cons, length_cons]
      omega
    refine ⟨rest, cs', hD, ⟨hcs', ?_, ?_⟩, fun buf jobid => ?_⟩
    · rw [hbytes, hD, Response.bytes, append_assoc, append_cancel_left_eq] at hflat
      exact hflat.symm
    · rw [← hlen]
      exact length_take_le _ _
    · obtain ⟨buf', hiff, hat, hbuf⟩ :=
        ends_printerStatus_iff (m := start buf (c :: cs)) jobid hread hD rfl
      refine ⟨⟨buf', IOBUFSZ, cs'.map .bytes, (c.take IOBUFSZ).length, 0 + (c.take IOBUFSZ).length,
        [((c.take IOBUFSZ).length, 0 + (c.take IOBUFSZ).length)]⟩,
        ⟨rfl, rfl, hlen, Nat.zero_add _, by rw [Nat.zero_add], hat, hbuf⟩, fun b => ?_⟩
      simp only [EndsWell, hiff]
      rfl

lemma httpSuccess_of_httpInfo {code : ℤ} (h : httpInfo code = true) : httpSuccess code = false := by
  simp only [httpInfo, httpSuccess, decide_eq_true_eq, decide_eq_false_iff_not] at h ⊢
  omega

/-- `printer_status` conforms if and only if all that it needs comes with the first read. -/
theorem conforms_iff_firstReadOk {jobid : ℕ} {r : Response} {chunks : List Bytes}
    (hchunks : [] ∉ chunks) (hbytes : chunks.flatten = r.bytes)
    (hstatus : r.statusLine ++ [13, 10] <+: firstRead chunks) :
    Conforms jobid r chunks ↔ FirstReadOk jobid r (firstRead chunks) := by
  obtain ⟨rest, cs, hfirst, hs, hline⟩ := exists_line hchunks hbytes hstatus
  have hconforms : ∀ {q}, afterStatusLine jobid r = q → Conforms jobid r chunks →
      ∀ buf, ∃ m, Line r rest cs buf m ∧ EndsWell q m (verdict jobid r) := by
    rintro q rfl h buf
    obtain ⟨m, hm, hiff⟩ := hline buf jobid
    exact ⟨m, hm, (hiff _).mp (h buf)⟩
  have hof : ∀ {q}, afterStatusLine jobid r = q →
      (∀ buf m, Line r rest cs buf m → EndsWell q m (verdict jobid r)) →
        Conforms jobid r chunks := by
    rintro q rfl h buf
    obtain ⟨m, hm, hiff⟩ := hline buf jobid
    exact (hiff _).mpr (h buf m hm)
  rw [FirstReadOk, hfirst]
  split
  · rename_i hinfo
    have hq : afterStatusLine jobid r = printerStatus jobid := if_pos hinfo
    have hverdict : verdict jobid r = false := by
      rw [verdict, httpSuccess_of_httpInfo hinfo, Bool.false_and]
    rw [hs.eq_bytes_iff]
    constructor
    · intro h
      obtain ⟨m, hm, hwell⟩ := hconforms hq h fun _ => 0
      exact (hm.info_iff hs jobid).mp (hverdict ▸ hwell)
    · intro h
      exact hof hq fun buf m hm => hverdict ▸ (hm.info_iff hs jobid).mpr h
  · rename_i hinfo
    split
    · rename_i hsuccess
      have hq : afterStatusLine jobid r = ippStatus jobid r.statusLine.length IOBUFSZ := by
        rw [afterStatusLine, if_neg hinfo, if_pos hsuccess]
      have hverdict : verdict jobid r = ippOk jobid r.body := by
        rw [verdict, hsuccess, Bool.true_and]
      rw [hverdict] at hconforms hof
      constructor
      · intro h
        exact hs.bodyOk_of_endsWell (hconforms hq h)
      · intro h
        exact hof hq fun buf m hm => hm.endsWell_of_bodyOk hs h
    · rename_i hsuccess
      have hq : afterStatusLine jobid r =
          do let datsz ← getDatsz; storeByte datsz 0; return false := by
        rw [afterStatusLine, if_neg hinfo, if_neg hsuccess]
      have hverdict : verdict jobid r = false := by
        rw [verdict, (Bool.not_eq_true _).mp hsuccess, Bool.false_and]
      rw [hverdict] at hconforms hof
      have hlen : (r.statusLine ++ 13 :: 10 :: rest).length =
          r.statusLine.length + 2 + rest.length := by
        rw [length_append, length_cons, length_cons]
        omega
      rw [hlen]
      constructor
      · intro h
        obtain ⟨m, hm, hwell⟩ := hconforms hq h fun _ => 0
        exact hm.error_iff.mp hwell
      · intro h
        exact hof hq fun buf m hm => hm.error_iff.mpr h

def accepted : Response where
  version := (49, 49)
  code := 200
  reason := ascii "OK"
  fields := [ascii "Content-Length: 9"]
  body := [1, 1, 0, 0, 0, 0, 0, 5, 3]
  three_digits := by decide
  reason_line := by decide
  field_lines := by decide
  length_field :=
    ⟨_, List.mem_cons_self, ascii "Content-Length:", [32], [57], [], by decide, by decide,
    by simp, by decide, by simp [isDigit], by decide, by simp⟩
  ipp_body := by decide

/-- It is recognised if it comes in one piece. -/
theorem accepted_conforms : [] ∉ [accepted.bytes] ∧ [accepted.bytes].flatten = accepted.bytes ∧
    accepted.statusLine ++ [13, 10] <+: firstRead [accepted.bytes] ∧
    FirstReadOk 5 accepted (firstRead [accepted.bytes]) ∧ Conforms 5 accepted [accepted.bytes] := by
  have hchunks : [] ∉ [accepted.bytes] := by decide
  have hbytes : [accepted.bytes].flatten = accepted.bytes := by decide
  have hstatus : accepted.statusLine ++ [13, 10] <+: firstRead [accepted.bytes] := by decide
  have hok : FirstReadOk 5 accepted (firstRead [accepted.bytes]) :=
    ⟨9, accepted.body, by decide, by decide, .inl (by decide)⟩
  exact ⟨hchunks, hbytes, hstatus, hok, (conforms_iff_firstReadOk hchunks hbytes hstatus).mpr hok⟩

/-- If five bytes of the body come later, the verdict is bad: they are put over the first four.  And
`datsz` is 85 when 47 bytes have been received. -/
theorem accepted_in_two_pieces : let chunks := [accepted.bytes.take 42, accepted.bytes.drop 42]
    [] ∉ chunks ∧ chunks.flatten = accepted.bytes ∧
      accepted.statusLine ++ [13, 10] <+: firstRead chunks ∧ verdict 5 accepted = true ∧
      ∃ m, Ends run (printerStatus 5) (start (fun _ => 0) chunks) (.ok false, m) ∧
        (85, 47) ∈ m.log ∧
        ¬ Conforms 5 accepted chunks := by
  intro chunks
  have hrun : ((printerStatus 5).exec run 200 (start (fun _ => 0) chunks)).map
      (fun p => (p.1.toOption, p.2.log)) = some (some false, [(85, 47), (42, 42)]) := by
        decide +kernel
  obtain ⟨⟨res, m⟩, hexec, hpair⟩ := Option.map_eq_some_iff.mp hrun
  obtain ⟨hres, hlog⟩ := Prod.mk.inj hpair
  cases res with
  | error e => cases hres
  | ok b =>
    obtain rfl : b = false := Option.some.inj hres
    have hends : Ends run (printerStatus 5) (start (fun _ => 0) chunks) (.ok false, m) :=
      ⟨200, hexec⟩
    have hmem : (85, 47) ∈ m.log := hlog ▸ mem_cons_self
    have hverdict : verdict 5 accepted = true := by decide
    refine ⟨by decide, by decide, by decide, hverdict, m, hends, hmem, fun hconforms => ?_⟩
    obtain ⟨m', hends', -⟩ := hconforms fun _ => 0
    rw [hverdict] at hends'
    cases (Prod.mk.inj (hends.unique hends')).1

end UnixPrograms.Status
