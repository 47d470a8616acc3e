import UnixPrograms.Printd.Responses

/-!
# The loops over the buffer

What the loops of `printer_status` do on a buffer with the bytes `bs` at the address `a` (`At buf a
bs`).  Where the bytes do not decide it, what `malloc` found behind them does.
-/

namespace UnixPrograms.Status

open Function List Prog

open Prog

/-! ## Bytes in the buffer -/

/-- The bytes `bs` are in the buffer from the address `a` on. -/
def At (buf : ℕ → UInt8) : ℕ → Bytes → Prop
  | _, [] => True
  | a, b :: bs => buf a = b ∧ At buf (a + 1) bs

variable {buf : ℕ → UInt8} {bs : Bytes} {a : ℕ}

lemma at_append {cs : Bytes} : At buf a (bs ++ cs) ↔ At buf a bs ∧ At buf (a + bs.length) cs := by
  induction bs generalizing a with
  | nil => simp [At]
  | cons b bs ih =>
    rw [cons_append, At, At, ih, length_cons, and_assoc, Nat.add_right_comm, Nat.add_assoc]

lemma At.congr {buf' : ℕ → UInt8} (h : At buf a bs) (hbuf : ∀ x, a ≤ x → buf' x = buf x) :
    At buf' a bs := by
  induction bs generalizing a with
  | nil => trivial
  | cons b bs ih =>
    exact ⟨(hbuf a le_rfl).trans h.1, ih h.2 fun x hx => hbuf x (Nat.le_of_succ_le hx)⟩

lemma At.drop {n : ℕ} (h : At buf a bs) (hn : n ≤ bs.length) : At buf (a + n) (bs.drop n) := by
  rw [← take_append_drop n bs, at_append, length_take_of_le hn] at h
  exact h.2

/-- A store elsewhere leaves the bytes as they are. -/
lemma at_update {x : ℕ} (b : UInt8) (h : x < a ∨ a + bs.length ≤ x) :
    At (update buf x b) a bs ↔ At buf a bs := by
  induction bs generalizing a with
  | nil => rfl
  | cons c bs ih =>
    rw [length_cons] at h
    rw [At, At, update_of_ne (by omega), ih (by omega)]

lemma at_putBytes (buf : ℕ → UInt8) (a : ℕ) (bs : Bytes) : At (putBytes buf a bs) a bs := by
  induction bs generalizing a with
  | nil => trivial
  | cons b bs ih =>
    rw [putBytes, At, update_self, at_update b (.inl (Nat.lt_succ_self a))]
    exact ⟨rfl, ih (a + 1)⟩

lemma putBytes_of_le {x : ℕ} (h : a + bs.length ≤ x) : putBytes buf a bs x = buf x := by
  induction bs generalizing a with
  | nil => rfl
  | cons b bs ih =>
    rw [length_cons] at h
    rw [putBytes, update_of_ne (by omega), ih (by omega)]

/-- Whatever is in the buffer is some bytes. -/
lemma exists_at (buf : ℕ → UInt8) (a n : ℕ) : ∃ bs, At buf a bs ∧ bs.length = n := by
  induction n generalizing a with
  | zero => exact ⟨[], trivial, rfl⟩
  | succ n ih =>
    obtain ⟨bs, hbs, hlen⟩ := ih (a + 1)
    exact ⟨buf a :: bs, ⟨rfl, hbs⟩, congrArg (· + 1) hlen⟩

/-! ## The commands -/

section Commands

variable {m : Mem} {a : ℕ}

lemma ends_loadByte (h : a < m.size) : Ends run (loadByte a) m (.ok (m.buf a), m) := by
  have hrun : run (.load a) m = (some (m.buf a), m) := by rw [run, if_pos h]
  refine ends_call.mpr ?_
  rw [hrun]
  exact ends_ret.mpr rfl

/-- A load outside the buffer is undefined. -/
lemma ends_loadByte_outside (h : m.size ≤ a) : Ends run (loadByte a) m (.error .undefined, m) := by
  have hrun : run (.load a) m = (none, m) := by rw [run, if_neg (Nat.not_lt.mpr h)]
  refine ends_call.mpr ?_
  rw [hrun]
  exact ends_fail.mpr rfl

lemma ends_storeByte (b : UInt8) (h : a < m.size) :
    Ends run (storeByte a b) m (.ok (), { m with buf := update m.buf a b }) := by
  have hrun : run (.store a b) m = (true, { m with buf := update m.buf a b }) := by
    rw [run, if_pos h]
  refine ends_call.mpr ?_
  rw [hrun]
  exact ends_ret.mpr rfl

/-- A store outside the buffer is undefined. -/
lemma ends_storeByte_outside (b : UInt8) (h : m.size ≤ a) :
    Ends run (storeByte a b) m (.error .undefined, m) := by
  have hrun : run (.store a b) m = (false, m) := by rw [run, if_neg (Nat.not_lt.mpr h)]
  refine ends_call.mpr ?_
  rw [hrun]
  exact ends_fail.mpr rfl

lemma ends_getDatsz : Ends run getDatsz m (.ok m.datsz, m) := ends_call.mpr (ends_ret.mpr rfl)

lemma ends_setDatsz (n : ℕ) :
    Ends run (setDatsz n) m (.ok (), { m with datsz := n, log := (n, m.received) :: m.log }) :=
  ends_call.mpr (ends_ret.mpr rfl)

lemma ends_realloc (size : ℕ) : Ends run (realloc size) m (.ok (), { m with size := size }) :=
  ends_call.mpr (ends_ret.mpr rfl)

lemma ends_tread {n : ℕ} {bs : Bytes} {fd : List Arrival} (h : readFd n m.fd = (.ok bs, fd)) :
    Ends run (tread a n) m (.ok bs.length,
      { m with buf := putBytes m.buf a bs, fd := fd, received := m.received + bs.length }) := by
  have hrun : run (.tread a n) m = ((bs.length : ℤ),
      { m with buf := putBytes m.buf a bs, fd := fd, received := m.received + bs.length }) := by
    rw [run, h]
  refine ends_call.mpr ?_
  rw [hrun]
  exact ends_ret.mpr rfl

end Commands

/-! ## Looking through the bytes -/

section Loops

variable {m : Mem} {p : UInt8 → Bool} {cp i bufsz : ℕ} {bs : Bytes}
  {r : Except Fault (Option (ℕ × ℕ × ℤ × ℕ)) × Mem}

/-- One round of a loop over blanks or digits. -/
lemma ends_skipWhile_iff (h : cp < m.size) {r : Except Fault ℕ × Mem} :
    Ends run (skipWhile p cp) m r ↔
      if p (m.buf cp) then Ends run (skipWhile p (cp + 1)) m r else r = (.ok cp, m) := by
  refine ends_loop.trans ?_
  rw [unroll]
  simp only [bind_eq, bind_assoc]
  rw [ends_bind (ends_loadByte h)]
  split
  · rfl
  · exact ends_ret

/-- The loop ends behind the bytes with the property. -/
lemma ends_skipWhile (hat : At m.buf cp bs) (hp : ∀ b ∈ bs, p b = true)
    (hend : p (m.buf (cp + bs.length)) = false) (hsize : cp + bs.length < m.size) :
    Ends run (skipWhile p cp) m (.ok (cp + bs.length), m) := by
  induction bs generalizing cp with
  | nil =>
    exact (ends_skipWhile_iff hsize).mpr (by rw [if_neg (by simpa using hend), length_nil,
      Nat.add_zero])
  | cons b bs ih =>
    have hnext : cp + (b :: bs).length = cp + 1 + bs.length := by
      rw [length_cons]
      omega
    rw [hnext] at hend hsize ⊢
    rw [ends_skipWhile_iff (by omega), if_pos (hat.1 ▸ hp b mem_cons_self)]
    exact ih hat.2 (fun c hc => hp c (mem_cons_of_mem b hc)) hend hsize

/-- If all bytes up to the end of the buffer have the property, the loop leaves the buffer. -/
lemma ends_skipWhile_outside (hat : At m.buf cp bs) (hp : ∀ b ∈ bs, p b = true)
    (hsize : cp + bs.length = m.size) : Ends run (skipWhile p cp) m (.error .undefined, m) := by
  induction bs generalizing cp with
  | nil =>
    have hcp : m.size ≤ cp := hsize.ge
    refine ends_loop.mpr ?_
    rw [unroll]
    simp only [bind_eq, bind_assoc]
    exact (ends_loadByte_outside hcp).bind_error _
  | cons b bs ih =>
    rw [length_cons] at hsize
    rw [ends_skipWhile_iff (by omega), if_pos (hat.1 ▸ hp b mem_cons_self)]
    exact ih hat.2 (fun c hc => hp c (mem_cons_of_mem b hc)) (by omega)

/-- A string ends at its first NUL. -/
lemma ends_loadString {s : Bytes} (hat : At m.buf cp (s ++ [0])) (hs : 0 ∉ s)
    (hsize : cp + s.length < m.size) : Ends run (loadString cp) m (.ok s, m) := by
  have hloop : ∀ acc, Ends run (repeatFrom (cp, acc) fun ((cp, s) : ℕ × Bytes) => do
      let c ← loadByte cp
      if c = 0 then return .inr s else return .inl (cp + 1, s ++ [c])) m (.ok (acc ++ s), m) := by
    induction s generalizing cp with
    | nil =>
      intro acc
      refine ends_loop.mpr ?_
      rw [unroll]
      simp only [bind_eq, bind_assoc]
      rw [ends_bind (ends_loadByte (by simpa using hsize)), hat.1, if_pos rfl, append_nil]
      exact ends_ret.mpr rfl
    | cons b s ih =>
      intro acc
      rw [mem_cons, not_or] at hs
      rw [length_cons] at hsize
      refine ends_loop.mpr ?_
      rw [unroll]
      simp only [bind_eq, bind_assoc]
      rw [ends_bind (ends_loadByte (by omega)), hat.1, if_neg (Ne.symm hs.1)]
      have := ih hat.2 hs.2 (by omega) (acc ++ [b])
      rw [append_assoc] at this
      exact this
  exact hloop []

lemma ends_atoi {s : Bytes} (hat : At m.buf cp (s ++ [0])) (hs : 0 ∉ s)
    (hsize : cp + s.length < m.size) : Ends run (atoi cp) m (.ok (atoiValue s), m) := by
  rw [atoi, bind_eq, ends_bind (ends_loadString hat hs hsize)]
  exact ends_ret.mpr rfl

/-- The comparison with enough bytes. -/
lemma ends_strncasecmp {text : Bytes} (hat : At m.buf cp bs) (hlen : text.length ≤ bs.length)
    (hsize : cp + bs.length ≤ m.size) :
    Ends run (strncasecmp cp text) m (.ok (beginsWith text bs), m) := by
  induction text generalizing cp bs with
  | nil => exact ends_ret.mpr rfl
  | cons t ts ih =>
    cases bs with
    | nil => cases hlen
    | cons b bs =>
      rw [length_cons, length_cons] at hlen
      rw [length_cons] at hsize
      rw [strncasecmp, beginsWith, bind_eq, ends_bind (ends_loadByte (by omega)), hat.1]
      split
      · rename_i hb
        simpa [hb] using ih hat.2 (by omega) (by omega)
      · rename_i hb
        exact ends_ret.mpr (by simp [hb])

/-- The comparison with any bytes that a NUL follows: it may leave the buffer. -/
lemma ends_strncasecmp_or (text : Bytes) (hat : At m.buf cp bs) (htext : 0 ∉ text)
    (hzero : m.buf (cp + bs.length) = 0) (hsize : cp + bs.length ≤ m.size) :
    Ends run (strncasecmp cp text) m (.ok (beginsWith text bs), m) ∨
      Ends run (strncasecmp cp text) m (.error .undefined, m) := by
  induction text generalizing cp bs with
  | nil => exact .inl (ends_ret.mpr rfl)
  | cons t ts ih =>
    rw [mem_cons, not_or] at htext
    rw [strncasecmp, bind_eq]
    cases bs with
    | nil =>
      change m.buf cp = 0 at hzero
      rcases Nat.lt_or_ge cp m.size with hcp | hcp
      · have ht : tolower 0 ≠ t := by
          rw [show tolower 0 = 0 by decide]
          exact htext.1
        rw [ends_bind (ends_loadByte hcp), hzero, if_neg ht]
        exact .inl (ends_ret.mpr rfl)
      · exact .inr ((ends_loadByte_outside hcp).bind_error _)
    | cons b bs =>
      rw [length_cons] at hsize
      rw [length_cons, ← Nat.add_assoc, Nat.add_right_comm] at hzero
      have hcp : cp < m.size := by omega
      rw [beginsWith, ends_bind (ends_loadByte hcp), ends_bind (ends_loadByte hcp), hat.1]
      split
      · rename_i hb
        simpa [hb] using ih hat.2 htext.2 hzero (by omega)
      · rename_i hb
        exact .inl (ends_ret.mpr (by simp [hb]))

/-- One step of the search for a `C`. -/
lemma ends_skipToC_bind {α : Type} {f : ℕ × ℕ → Code α} (h : cp < m.size)
    {r : Except Fault α × Mem} : Ends run ((skipToC cp i).bind f) m r ↔
      if m.buf cp ≠ 67 ∧ m.buf cp ≠ 99 ∧ i < m.datsz then
        Ends run ((skipToC (cp + 1) (i + 1)).bind f) m r
      else Ends run (f (cp, i)) m r := by
  refine ends_loop.trans ?_
  rw [unroll]
  simp only [bind_eq, bind_assoc]
  rw [ends_bind (ends_loadByte h), ends_bind ends_getDatsz]
  split
  · rfl
  · rfl

lemma ends_skipToC_outside (h : m.size ≤ cp) :
    Ends run (skipToC cp i) m (.error .undefined, m) := by
  refine ends_loop.mpr ?_
  rw [unroll]
  simp only [bind_eq, bind_assoc]
  exact (ends_loadByte_outside h).bind_error _

/-- The number behind `Content-Length:` is read, and a NUL is stored behind its digits. -/
lemma ends_getLength {sp ds : Bytes} {w : UInt8} (hat : At m.buf (cp + 15) (sp ++ (ds ++ [w])))
    (hsp : ∀ b ∈ sp, isSpace b = true) (hds : ∀ b ∈ ds, isDigit b = true)
    (hdigit : isDigit w = false) (hspace : ds = [] → isSpace w = false)
    (hsize : cp + 15 + sp.length + ds.length < m.size) :
    Ends run (getLength cp) m (.ok (cp + 15 + sp.length + ds.length + 1, atoiValue ds),
      { m with buf := update m.buf (cp + 15 + sp.length + ds.length) 0 }) := by
  obtain ⟨hatsp, hat⟩ := at_append.mp hat
  obtain ⟨hatds, hatw⟩ := at_append.mp hat
  have hfirst : isSpace (m.buf (cp + 15 + sp.length)) = false := by
    cases ds with
    | nil =>
      rw [hat.1]
      exact hspace rfl
    | cons d ds =>
      rw [hat.1]
      exact isSpace_of_isDigit (hds d mem_cons_self)
  rw [getLength]
  simp only [bind_eq]
  rw [ends_bind (ends_skipWhile hatsp hsp hfirst (by omega)),
    ends_bind (ends_skipWhile hatds hds (hatw.1 ▸ hdigit) hsize),
      ends_bind (ends_storeByte 0 hsize)]
  -- the digits are a string now
  have hstring : At (update m.buf (cp + 15 + sp.length + ds.length) 0)
      (cp + 15 + sp.length)
      (ds ++ [0]) := by
    refine at_append.mpr ⟨(at_update 0 (.inr le_rfl)).mpr hatds, ?_, trivial⟩
    exact update_self _ _ _
  have hzero : 0 ∉ ds := by
    intro hmem
    have := hds 0 hmem
    contradiction
  have hatoi : Ends run (atoi (cp + 15 + sp.length))
      { m with buf := update m.buf (cp + 15 + sp.length + ds.length) 0 }
        (.ok (atoiValue ds), _) :=
    ends_atoi hstring hzero hsize
  rw [ends_bind hatoi]
  exact ends_ret.mpr rfl

/-- If blanks and digits fill the buffer, reading the number leaves it. -/
lemma ends_getLength_outside {sp ds : Bytes} (hat : At m.buf (cp + 15) (sp ++ ds))
    (hsp : ∀ b ∈ sp, isSpace b = true) (hds : ∀ b ∈ ds, isDigit b = true)
    (hsize : cp + 15 + sp.length + ds.length = m.size) :
    Ends run (getLength cp) m (.error .undefined, m) := by
  obtain ⟨hatsp, hatds⟩ := at_append.mp hat
  rw [getLength, bind_eq]
  cases ds with
  | nil => exact (ends_skipWhile_outside hatsp hsp hsize).bind_error _
  | cons d ds =>
    have hfirst : isSpace (m.buf (cp + 15 + sp.length)) = false := by
      rw [hatds.1]
      exact isSpace_of_isDigit (hds d mem_cons_self)
    have hlen := length_pos_iff.mpr (cons_ne_nil d ds)
    rw [ends_bind (ends_skipWhile hatsp hsp hfirst (by omega)), bind_eq]
    exact (ends_skipWhile_outside hatds hds hsize).bind_error _

/-- A byte that is no `C` is passed over. -/
lemma ends_findLength_skip (hsize : cp < m.size) (hcp : cp < m.datsz)
    (hc : m.buf cp ≠ 67 ∧ m.buf cp ≠ 99) :
    Ends run (findLength cp cp bufsz) m r ↔ Ends run (findLength (cp + 1) (cp + 1) bufsz) m r := by
  rw [findLength, findLength]
  refine ends_loop.trans (Iff.trans ?_ ends_loop.symm)
  rw [unroll, unroll]
  simp only [bind_eq, bind_assoc]
  rw [ends_skipToC_bind hsize, if_pos ⟨hc.1, hc.2, hcp⟩]

/-- At a `C` the text decides whether the number is read. -/
lemma ends_findLength_C (hsize : cp < m.size) (hcp : cp < m.datsz)
    (hc : m.buf cp = 67 ∨ m.buf cp = 99) {b : Bool}
    (hcmp : Ends run (strncasecmp cp contentLength) m (.ok b, m)) :
    Ends run (findLength cp cp bufsz) m r ↔
      if b then Ends run ((getLength cp).bind fun x => .ret (some (x.1, x.1, x.2, bufsz))) m r
      else Ends run (findLength (cp + 1) (cp + 1) bufsz) m r := by
  rw [findLength]
  refine ends_loop.trans ?_
  rw [unroll]
  simp only [bind_eq, bind_assoc]
  rw [ends_skipToC_bind hsize, if_neg (by rintro ⟨h₁, h₂, -⟩; exact hc.elim h₁ h₂)]
  rw [ends_bind ends_getDatsz, if_neg (Nat.not_le.mpr hcp)]
  simp only [pure_eq_ret, ret_bind, bind_assoc]
  rw [ends_bind hcmp]
  split
  · simp only [bind_assoc, ret_bind]
  · rfl

lemma ends_findLength_error (hsize : cp < m.size) (hcp : cp < m.datsz)
    (hc : m.buf cp = 67 ∨ m.buf cp = 99)
    (hcmp : Ends run (strncasecmp cp contentLength) m (.error .undefined, m)) :
    Ends run (findLength cp cp bufsz) m (.error .undefined, m) := by
  rw [findLength]
  refine ends_loop.mpr ?_
  rw [unroll]
  simp only [bind_eq, bind_assoc]
  rw [ends_skipToC_bind hsize, if_neg (by rintro ⟨h₁, h₂, -⟩; exact hc.elim h₁ h₂)]
  rw [ends_bind ends_getDatsz, if_neg (Nat.not_le.mpr hcp)]
  simp only [pure_eq_ret, ret_bind, bind_assoc]
  exact hcmp.bind_error _

/-- Where the text does not begin, the search goes on with the next byte. -/
lemma ends_findLength_next (hsize : cp < m.size) (hcp : cp < m.datsz)
    (hcmp : Ends run (strncasecmp cp contentLength) m (.ok false, m)) :
    Ends run (findLength cp cp bufsz) m r ↔ Ends run (findLength (cp + 1) (cp + 1) bufsz) m r := by
  by_cases hc : m.buf cp = 67 ∨ m.buf cp = 99
  · exact ends_findLength_C hsize hcp hc hcmp
  · exact ends_findLength_skip hsize hcp (not_or.mp hc)

lemma head_of_beginsWith {c : UInt8} {cs : Bytes}
    (h : beginsWith contentLength (c :: cs) = true) : c = 67 ∨ c = 99 := by
  have hc : tolower c = 99 := of_decide_eq_true (Bool.and_eq_true_iff.mp h).1
  unfold tolower at hc
  split at hc
  · left
    have := congrArg (· - 32) hc
    simpa using this
  · exact .inr hc

/-- The search finds the length that `lengthField` finds in the bytes. -/
lemma ends_findLength (bufsz : ℕ) {rest : Bytes} {len : ℤ} (hat : At m.buf cp bs)
    (hcp : cp + bs.length = m.datsz) (hsize : m.datsz ≤ m.size)
    (h : lengthField bs = some (len, rest)) :
    ∃ buf i, Ends run (findLength cp cp bufsz) m
      (.ok (some (i, i, len, bufsz)), { m with buf := buf }) ∧
      i + rest.length = m.datsz ∧ At buf i rest ∧ ∀ a, m.datsz ≤ a → buf a = m.buf a := by
  induction bs generalizing cp with
  | nil => cases h
  | cons c cs ih =>
    have hlen := length_le_of_lengthField h
    have hcmp : Ends run (strncasecmp cp contentLength) m
        (.ok (beginsWith contentLength (c :: cs)), m) :=
      ends_strncasecmp hat (length_contentLength.trans_le hlen) (by omega)
    rw [length_cons] at hlen hcp
    rw [lengthField] at h
    split at h
    · rename_i hbegins
      rw [hbegins] at hcmp
      obtain ⟨sp, ds, w, hdrop, hsp, hds, hdigit, hspace, rfl⟩ := exists_of_number h
      have hdropped : At m.buf (cp + 15) ((c :: cs).drop 15) := hat.drop hlen
      have hcount : sp.length + ds.length + 1 + rest.length + 15 = cs.length + 1 := by
        have := congrArg List.length hdrop
        simp only [length_drop, length_cons, length_append] at this
        omega
      rw [hdrop, append_cons ds, ← append_assoc, at_append] at hdropped
      have hrest := hdropped.2
      simp only [length_append, length_cons, length_nil] at hrest
      refine ⟨update m.buf (cp + 15 + sp.length + ds.length) 0,
        cp + 15 + sp.length + ds.length + 1, ?_, by omega, ?_, fun a ha => ?_⟩
      · rw [ends_findLength_C (by omega) (by omega)
          (by rw [hat.1]; exact head_of_beginsWith hbegins) hcmp,
          if_pos rfl, ends_bind (ends_getLength hdropped.1 hsp hds hdigit hspace (by omega))]
        exact ends_ret.mpr rfl
      · rw [at_update 0 (.inl (Nat.lt_succ_self _))]
        convert hrest using 1
        omega
      · exact update_of_ne (by omega) _ _
    · rename_i hbegins
      rw [Bool.not_eq_true] at hbegins
      rw [hbegins] at hcmp
      obtain ⟨buf, i, hends, hi, hrest, hbuf⟩ := ih hat.2 (by omega) h
      exact ⟨buf, i, (ends_findLength_next (by omega) (by omega) hcmp).mpr hends, hi, hrest, hbuf⟩

lemma ends_atHeaderEnd (hsize : cp + 2 < m.size) : Ends run (atHeaderEnd cp) m
    (.ok (decide (m.buf cp = 10 ∧ m.buf (cp + 1) = 13 ∧ m.buf (cp + 2) = 10)), m) := by
  rw [atHeaderEnd]
  simp only [bind_eq]
  rw [ends_bind (ends_loadByte (by omega))]
  split
  · rename_i h₀
    rw [ends_bind (ends_loadByte (by omega))]
    split
    · rename_i h₁
      rw [ends_bind (ends_loadByte hsize)]
      exact ends_ret.mpr (by simp [h₀, h₁])
    · rename_i h₁
      exact ends_ret.mpr (by simp [h₁])
  · rename_i h₀
    exact ends_ret.mpr (by simp [h₀])

/-- One round of the search for the empty line. -/
lemma ends_scanEnd_iff (hsize : m.datsz ≤ m.size) {r : Except Fault (Bool × ℕ × ℕ) × Mem} :
    Ends run (scanEnd i i) m r ↔
      if i + 2 < m.datsz then
        if m.buf i = 10 ∧ m.buf (i + 1) = 13 ∧ m.buf (i + 2) = 10 then
          r = (.ok (true, i + 3, i + 3), m)
        else Ends run (scanEnd (i + 1) (i + 1)) m r
      else r = (.ok (false, i, i), m) := by
  refine ends_loop.trans ?_
  rw [unroll]
  simp only [bind_eq, bind_assoc]
  rw [ends_bind ends_getDatsz]
  split
  · rw [bind_assoc, ends_bind (ends_atHeaderEnd (by omega))]
    by_cases hend : m.buf i = 10 ∧ m.buf (i + 1) = 13 ∧ m.buf (i + 2) = 10
    · rw [if_pos (decide_eq_true hend), if_pos hend]
      exact ends_ret
    · rw [if_neg (mt of_decide_eq_true hend), if_neg hend]
      rfl
  · exact ends_ret

/-- The test in the loop is the one in `headerEnd`. -/
lemma headerEnd_test {c : UInt8} {cs : Bytes} (hat : At m.buf i (c :: cs)) (hlen : 2 ≤ cs.length) :
    (m.buf i = 10 ∧ m.buf (i + 1) = 13 ∧ m.buf (i + 2) = 10) ↔
      c = 10 ∧ cs.take 2 = [13, 10] := by
  obtain ⟨c₁, cs, rfl⟩ := exists_cons_of_length_pos (l := cs) (by omega)
  obtain ⟨c₂, cs, rfl⟩ := exists_cons_of_length_pos (l := cs) (Nat.le_of_succ_le_succ hlen)
  obtain ⟨h₀, h₁, h₂, -⟩ := hat
  rw [h₀, h₁, h₂]
  simp

/-- The search ends behind the empty line. -/
lemma ends_scanEnd_found {known : Bytes} (hat : At m.buf i bs) (hi : i + bs.length = m.datsz)
    (hsize : m.datsz ≤ m.size) (h : headerEnd bs = some known) :
    ∃ j, Ends run (scanEnd i i) m (.ok (true, j, j), m) ∧ j + known.length = m.datsz ∧
      At m.buf j known := by
  induction bs generalizing i with
  | nil => cases h
  | cons c cs ih =>
    have hlen := length_of_headerEnd h
    rw [length_cons] at hlen hi
    have htest := headerEnd_test hat (by omega)
    rw [headerEnd] at h
    split at h
    · rename_i hend
      refine ⟨i + 3, ?_, ?_, ?_⟩
      · rw [ends_scanEnd_iff hsize, if_pos (by omega), if_pos (htest.mpr hend)]
      · have := congrArg List.length (Option.some.inj h)
        rw [length_drop] at this
        omega
      · rw [← Option.some.inj h]
        exact At.drop (n := 2) hat.2 (by omega)
    · rename_i hend
      obtain ⟨j, hj⟩ := ih hat.2 (by omega) h
      refine ⟨j, ?_, hj.2⟩
      rw [ends_scanEnd_iff hsize, if_pos (by omega), if_neg (mt htest.mp hend)]
      exact hj.1

/-- Without an empty line it ends two bytes before the end of the data. -/
lemma ends_scanEnd_none (hat : At m.buf i bs) (hne : bs ≠ []) (hi : i + bs.length = m.datsz)
    (hsize : m.datsz ≤ m.size) (h : headerEnd bs = none) :
    ∃ j, Ends run (scanEnd i i) m (.ok (false, j, j), m) ∧ j < m.datsz ∧ m.datsz ≤ j + 2 := by
  induction bs generalizing i with
  | nil => exact absurd rfl hne
  | cons c cs ih =>
    rw [length_cons] at hi
    rcases Nat.lt_or_ge (i + 2) m.datsz with hlt | hge
    · have hlen : 2 ≤ cs.length := by omega
      rw [headerEnd] at h
      split at h
      · cases h
      · rename_i hend
        obtain ⟨j, hj⟩ := ih hat.2 (ne_nil_of_length_pos (by omega)) (by omega) h
        refine ⟨j, ?_, hj.2⟩
        rw [ends_scanEnd_iff hsize, if_pos hlt, if_neg (mt (headerEnd_test hat hlen).mp hend)]
        exact hj.1
    · refine ⟨i, ?_, by omega, hge⟩
      rw [ends_scanEnd_iff hsize, if_neg (Nat.not_lt.mpr hge)]

end Loops

end UnixPrograms.Status
