import Gridlens.Effects.Attempts
import Gridlens.RteClient
import Mathlib.Algebra.Order.Field.Basic
import Mathlib.Data.Rat.Cast.Order

/-!
# The attempts of the ENTSO-E client

`EntsoeClient.fetch`: a request, and another one after a pause as long as the
failure is one that may clear and an attempt is left. Every attempt sends one
request, so what the platform answers is given by the attempt.

`fetch_retries_iff` says when each attempt is spent on one such failure, and
the first other answer is the last thing the call sees: always, but for a
budget so long that the ceiling of a pause is no float, and ceilings below zero.
-/

namespace Gridlens

open Attempts

/-! ## The client -/

/-- What comes back at each attempt, and what the client reads besides. -/
structure Platform where
  data : Nat → DataAnswer
  /-- `datetime.now(UTC)`, when a body is there. -/
  now : Nat → Instant
  fromstring : Bytes → Py Element
  /-- `f"{float(header):.0f}"`, where that is a number. -/
  seconds : String → Option String
  /-- `self._rng.random()`. -/
  random : Nat → ℚ
  random_mem : ∀ attempt, 0 ≤ random attempt ∧ random attempt < 1

structure EntsoeClient where
  maxAttempts : Nat
  backoffBase : ℚ
  backoffCap : ℚ
  max_attempts : 1 ≤ maxAttempts

namespace EntsoeClient

/-- What a call did: `acquire`, `get` and `sleep`. -/
abbrev Marks := List (Mark ℚ)

/-- How a call is left. -/
abbrev Left := Py FetchResult × Marks

/-! ### Reading an answer -/

abbrev RATE_LIMIT_COOLDOWN_SECONDS : String := "600"

/-- `_retry_after`. -/
def retryAfter (p : Platform) (header : Option String) : String :=
  match header with
  | some header =>
      if header ≠ "" then (p.seconds header).getD RATE_LIMIT_COOLDOWN_SECONDS
      else RATE_LIMIT_COOLDOWN_SECONDS
  | none => RATE_LIMIT_COOLDOWN_SECONDS

/-- `b"Acknowledgement_MarketDocument"`. -/
def ACKNOWLEDGEMENT : Bytes :=
  "Acknowledgement_MarketDocument".toList.map fun c => UInt8.ofNat c.toNat

/-- `_is_acknowledgement`. -/
def isAcknowledgement (body : Bytes) : Bool := ACKNOWLEDGEMENT <:+: body.take 500

mutual

/-- The elements below one, in document order. -/
def descendants : Element → List Element
  | .mk _ _ children => descendantsOf children

def descendantsOf : List Element → List Element
  | [] => []
  | child :: children => child :: (descendants child ++ descendantsOf children)

end

/-- The namespace of a tag: what its braces hold. -/
def namespaceOf (tag : String) : String :=
  if '\x7d' ∈ tag.toList then
    String.ofList ((tag.toList.takeWhile fun c => c ≠ '\x7d').dropWhile fun c => c = '\x7b')
  else ""

/-- The tag is this name in the namespace; the path of an element takes `*` for
any namespace. -/
def inNamespace (namespace_ name tag : String) : Bool :=
  if namespace_ = "" then tag = name
  else if namespace_ = "*" then tag = name ∨ ('\x7d' :: name.toList) <:+ tag.toList
  else tag = "\x7b" ++ namespace_ ++ "\x7d" ++ name

/-- `findtext` of `.//Reason/name`, in the namespace of the root, stripped; nothing
is found as the empty text. -/
def findtext (root : Element) (name : String) : String :=
  let namespace_ := namespaceOf root.tag
  let reasons := (descendants root).filter fun e => inNamespace namespace_ "Reason" e.tag
  let found := reasons.flatMap fun e => e.children.filter fun c => inNamespace namespace_ name c.tag
  (found.head?.map Element.stripped).getD ""

/-- `_reason`. -/
def reason (p : Platform) (body : Bytes) : Py (String × String) := do
  let root ← p.fromstring body
  .ok (findtext root "code", findtext root "text")

abbrev NO_DATA_PREFIX : String := "No matching data found"

/-- The message of an `EntsoeRejected`. -/
def rejected (code text : String) (statusCode : Int) : List Piece :=
  [.text "entsoe rejected the request (http ", .int statusCode, .text "): ", .str code, .text " ",
    .str text]

/-- `_interpret`. -/
def interpret (p : Platform) (attempt : Nat) (statusCode : Int) (body : Bytes) : Py FetchResult :=
  if isAcknowledgement body then do
    let (code, text) ← reason p body
    if statusCode = 401 then raise .EntsoeAuthError (rejected code text statusCode)
    else if NO_DATA_PREFIX.toList <+: text.toList then
      raise .EntsoeNoData (rejected code text statusCode)
    else raise .EntsoeRejected (rejected code text statusCode)
  else if 400 ≤ statusCode then
    raise .EntsoeRejected (rejected "" "unexpected error body" statusCode)
  else .ok ⟨body, p.now attempt, statusCode⟩

/-! ### The loop -/

/-- The ceiling of the pause after an attempt. -/
def ceiling (c : EntsoeClient) (attempt : Nat) : ℚ :=
  min c.backoffCap (c.backoffBase * 2 ^ (attempt - 1))

/-- `self._rng.uniform(0.0, ceiling)`. -/
def drawn (c : EntsoeClient) (p : Platform) (attempt : Nat) : ℚ :=
  0 + (c.ceiling attempt - 0) * p.random attempt

/-- `_backoff`. -/
def backoff (c : EntsoeClient) (p : Platform) (attempt : Nat) : Py ℚ := do
  Gridlens.backoff attempt
  .ok (c.drawn p attempt)

/-- `time.sleep`. -/
def sleep (seconds : ℚ) : Py Unit :=
  if seconds < 0 then raise .ValueError [.text "sleep length must be non-negative"] else .ok ()

/-- The end of the loop body, after a failure that may clear. -/
def pause (c : EntsoeClient) (p : Platform) (attempt : Nat) (marks : Marks) :
    Except Left Marks :=
  if attempt < c.maxAttempts then
    match c.backoff p attempt with
    | .error error => .error (.error error, marks)
    | .ok seconds =>
        match sleep seconds with
        | .error error => .error (.error error, marks)
        | .ok () => .ok (marks ++ [.paused seconds])
  else .ok marks

/-- The loop body of `fetch`: it goes on, or leaves. -/
def attempt (c : EntsoeClient) (p : Platform) (marks : Marks) (attempt : Nat) :
    Except Left Marks :=
  let marks := marks ++ [.prepared, .requested attempt]
  match p.data attempt with
  | .transport => c.pause p attempt marks
  | .response statusCode content header =>
      if statusCode = 429 then
        -- a retry would extend the ban
        .error (raise .RateLimited [.text "rate limited, do not retry for ",
          .str (retryAfter p header), .text "s"], marks)
      else if statusCode < 500 then .error (interpret p attempt statusCode content, marks)
      else c.pause p attempt marks

/-- `fetch`. -/
def fetch (c : EntsoeClient) (p : Platform) : Left :=
  match (List.range' 1 c.maxAttempts).foldlM (c.attempt p) [] with
  | .error left => left
  | .ok marks =>
      (raise .EntsoeUnavailable
        [.text "giving up after ", .int c.maxAttempts, .text " attempts"], marks)

/-! ## What `fetch` is to do -/

/-- What an answer is made of that is no failure that may clear. -/
def verdict (p : Platform) (attempt : Nat) : Option (Py FetchResult) :=
  match p.data attempt with
  | .transport => none
  | .response statusCode content header =>
      if 500 ≤ statusCode then none
      else if statusCode = 429 then
        some (raise .RateLimited [.text "rate limited, do not retry for ",
          .str (retryAfter p header), .text "s"])
      else some (interpret p attempt statusCode content)

/-- Every failure up to this attempt may clear. -/
def FailsThrough (p : Platform) (attempt : Nat) : Prop :=
  ∀ j, 1 ≤ j → j ≤ attempt → (p.data j).Transient

/-- A pause is at most its ceiling. -/
abbrev Allowed (c : EntsoeClient) (attempt : Nat) (seconds : ℚ) : Prop :=
  seconds ≤ c.ceiling attempt

/-- The first answer that is no failure that may clear, within the attempts, is
the last one and decides; without one all attempts are made. -/
structure Retries (c : EntsoeClient) (p : Platform) (left : Left) : Prop where
  decided : ∀ i result, 1 ≤ i → i ≤ c.maxAttempts → FailsThrough p (i - 1) →
    verdict p i = some result → left.1 = result ∧ Spaced c.Allowed i left.2
  exhausted : FailsThrough p c.maxAttempts →
    left.1 = raise .EntsoeUnavailable
      [.text "giving up after ", .int c.maxAttempts, .text " attempts"] ∧
      Spaced c.Allowed c.maxAttempts left.2

/-- The pauses that are due can be computed, and slept through. -/
def Pauses (c : EntsoeClient) (p : Platform) : Prop :=
  ∀ attempt, 1 ≤ attempt → attempt < c.maxAttempts → FailsThrough p attempt →
    attempt ≤ 1024 ∧ 0 ≤ c.backoffBase ∧ 0 ≤ c.backoffCap

/-! ## One attempt -/

section Attempt

variable {c : EntsoeClient} {p : Platform} {marks : Marks} {n : Nat}

theorem transient_iff : (p.data n).Transient ↔ verdict p n = none := by
  unfold verdict
  cases p.data n with
  | transport => exact iff_of_true trivial rfl
  | response statusCode content header =>
      simp only [DataAnswer.Transient]
      split_ifs with hlate hlimited
      · exact iff_of_true hlate rfl
      · exact iff_of_false hlate not_false
      · exact iff_of_false hlate not_false

/-- An answer that decides ends the call. -/
theorem attempt_decided {result : Py FetchResult} (h : verdict p n = some result) :
    c.attempt p marks n = .error (result, marks ++ [.prepared, .requested n]) := by
  unfold verdict at h
  unfold attempt
  cases hdata : p.data n with
  | transport =>
      rw [hdata] at h
      cases h
  | response statusCode content header =>
      rw [hdata] at h
      simp only at h ⊢
      split_ifs at h with hlate hlimited
      · cases h
        rw [if_pos hlimited]
      · cases h
        rw [if_neg hlimited, if_pos (not_le.mp hlate)]

/-- A failure that may clear is followed by the pause. -/
theorem attempt_transient (h : (p.data n).Transient) :
    c.attempt p marks n = c.pause p n (marks ++ [.prepared, .requested n]) := by
  unfold attempt
  cases hdata : p.data n with
  | transport => rfl
  | response statusCode content header =>
      rw [hdata] at h
      have hlate : 500 ≤ statusCode := h
      have hnotLimited : ¬ statusCode = 429 := by omega
      simp only
      rw [if_neg hnotLimited, if_neg (not_lt.mpr hlate)]

/-- The last attempt is followed by no pause. -/
theorem pause_last (h : ¬ n < c.maxAttempts) : c.pause p n marks = .ok marks := if_neg h

theorem drawn_eq (c : EntsoeClient) (p : Platform) (n : Nat) :
    c.drawn p n = c.ceiling n * p.random n := by
  unfold drawn
  rw [sub_zero, zero_add]

/-- A pause under a ceiling that is not negative is slept through. -/
theorem pause_ok (h : n < c.maxAttempts) (hfloat : n ≤ 1024) (hceiling : 0 ≤ c.ceiling n) :
    c.pause p n marks = .ok (marks ++ [.paused (c.drawn p n)]) := by
  have hbackoff : c.backoff p n = .ok (c.drawn p n) := by
    unfold EntsoeClient.backoff Gridlens.backoff
    rw [if_pos hfloat]
    rfl
  have hdrawn : ¬ c.drawn p n < 0 := by
    rw [drawn_eq, not_lt]
    exact mul_nonneg hceiling (p.random_mem n).1
  unfold pause
  rw [if_pos h, hbackoff]
  simp only [sleep]
  rw [if_neg hdrawn]

/-- A pause that is due is slept through, or ends the call. -/
theorem pause_cases (h : n < c.maxAttempts) :
    (c.pause p n marks = .ok (marks ++ [.paused (c.drawn p n)]) ∧ n ≤ 1024 ∧ 0 ≤ c.drawn p n) ∨
      ∃ result, c.pause p n marks = .error (result, marks) := by
  unfold pause EntsoeClient.backoff Gridlens.backoff
  rw [if_pos h]
  by_cases hfloat : n ≤ 1024
  · rw [if_pos hfloat, ok_bind]
    simp only [sleep]
    split_ifs with hdrawn
    · exact Or.inr ⟨_, rfl⟩
    · exact Or.inl ⟨rfl, hfloat, not_lt.mp hdrawn⟩
  · rw [if_neg hfloat]
    exact Or.inr ⟨_, rfl⟩

theorem drawn_le (hceiling : 0 ≤ c.ceiling n) : c.drawn p n ≤ c.ceiling n := by
  rw [drawn_eq]
  exact mul_le_of_le_one_right hceiling (p.random_mem n).2.le

/-- The ceilings are not negative where neither the base nor the cap is. -/
theorem ceiling_nonneg : 0 ≤ c.ceiling n ↔ 0 ≤ c.backoffBase ∧ 0 ≤ c.backoffCap := by
  unfold ceiling
  rw [le_min_iff, and_comm, mul_nonneg_iff_of_pos_right (pow_pos two_pos _)]

/-- What was done so far, whether the loop goes on or not. -/
def marksOf : Except Left Marks → Marks
  | .ok marks => marks
  | .error left => left.2

/-- What was done stays done. -/
theorem pause_extends : marks <+: marksOf (c.pause p n marks) := by
  unfold pause
  split_ifs
  · cases c.backoff p n with
    | error error => exact List.prefix_refl _
    | ok seconds =>
        simp only
        cases sleep seconds with
        | error error => exact List.prefix_refl _
        | ok _ => exact List.prefix_append _ _
  · exact List.prefix_refl _

theorem attempt_extends : marks <+: marksOf (c.attempt p marks n) := by
  cases hverdict : verdict p n with
  | some result =>
      rw [attempt_decided hverdict]
      exact List.prefix_append _ _
  | none =>
      rw [attempt_transient (transient_iff.mpr hverdict)]
      exact (List.prefix_append _ _).trans pause_extends

theorem fetch_marks : (c.fetch p).2 =
    marksOf ((List.range' 1 c.maxAttempts).foldlM (c.attempt p) []) := by
  unfold fetch
  cases (List.range' 1 c.maxAttempts).foldlM (c.attempt p) [] with
  | ok marks => rfl
  | error left => rfl

theorem attempts_extend (attempts : List Nat) (marks : Marks) :
    marks <+: marksOf (attempts.foldlM (c.attempt p) marks) := by
  induction attempts generalizing marks with
  | nil => exact List.prefix_refl _
  | cons n attempts ih =>
      rw [List.foldlM_cons]
      have hone := @attempt_extends c p marks n
      cases hattempt : c.attempt p marks n with
      | error left =>
          rw [hattempt] at hone
          exact hone
      | ok marks' =>
          rw [hattempt] at hone
          exact hone.trans (ih marks')

end Attempt

/-! ## The loop -/

section Loop

variable {c : EntsoeClient} {p : Platform} {n : Nat}

/-- The marks of so many attempts that failed, each with its pause. -/
def failed (c : EntsoeClient) (p : Platform) : Nat → Marks
  | 0 => []
  | n + 1 => failed c p n ++ [.prepared, .requested (n + 1)] ++ [.paused (c.drawn p (n + 1))]

/-- The marks of the attempt after them. -/
def upTo (c : EntsoeClient) (p : Platform) (n : Nat) : Marks :=
  failed c p n ++ [.prepared, .requested (n + 1)]

/-- After so many failures the pause is due, and is slept through. -/
def PausesThrough (c : EntsoeClient) (n : Nat) : Prop :=
  ∀ k, 1 ≤ k → k ≤ n → k < c.maxAttempts ∧ k ≤ 1024 ∧ 0 ≤ c.ceiling k

theorem attempts_failed (hfails : FailsThrough p n) (hpauses : PausesThrough c n) :
    (List.range' 1 n).foldlM (c.attempt p) [] = .ok (failed c p n) := by
  induction n with
  | zero => rfl
  | succ n ih =>
      have hbefore := ih (fun j hj hjn => hfails j hj (by omega)) fun k hk hkn =>
        hpauses k hk (by omega)
      rcases hpauses (n + 1) (by omega) (le_refl _) with ⟨hlt, hfloat, hceiling⟩
      have hstep : c.attempt p (failed c p n) (n + 1) = .ok (failed c p (n + 1)) := by
        rw [attempt_transient (hfails (n + 1) (by omega) (le_refl _)), pause_ok hlt hfloat hceiling]
        rfl
      rw [List.range'_1_concat, List.foldlM_append, hbefore, Nat.add_comm 1 n]
      show (c.attempt p (failed c p n) (n + 1) >>= fun marks => pure marks) = _
      rw [hstep]
      rfl

/-- After the failures the loop is at its next attempt. -/
theorem attempts_eq (hn : n < c.maxAttempts) (hfails : FailsThrough p n)
    (hpauses : PausesThrough c n) :
    (List.range' 1 c.maxAttempts).foldlM (c.attempt p) [] =
      c.attempt p (failed c p n) (n + 1) >>= fun marks =>
        (List.range' (n + 2) (c.maxAttempts - (n + 1))).foldlM (c.attempt p) marks := by
  have hsplit : List.range' 1 c.maxAttempts =
      List.range' 1 n ++ (n + 1) :: List.range' (n + 2) (c.maxAttempts - (n + 1)) := by
    have hcount : c.maxAttempts = n + (1 + (c.maxAttempts - (n + 1))) := by omega
    conv_lhs => rw [hcount, ← List.range'_append_1, Nat.add_comm 1 (c.maxAttempts - (n + 1)),
      List.range'_succ]
    rw [Nat.add_comm 1 n]
  rw [hsplit, List.foldlM_append, attempts_failed hfails hpauses]
  rfl

/-- The requests so far are spaced. -/
theorem spaced_upTo (hpauses : ∀ k, 1 ≤ k → k ≤ n → 0 ≤ c.ceiling k) :
    Spaced c.Allowed (n + 1) (upTo c p n) := by
  induction n with
  | zero => exact .first
  | succ n ih =>
      have hbefore := ih fun k hk hkn => hpauses k hk (by omega)
      have hnext := hbefore.next (drawn_le (p := p) (hpauses (n + 1) (by omega) (le_refl _)))
      have hmarks : upTo c p (n + 1) = upTo c p n ++
          [.paused (c.drawn p (n + 1)), .prepared, .requested (n + 1 + 1)] := by
        unfold upTo
        rw [failed, List.append_assoc _ [Mark.paused _]]
        rfl
      rw [hmarks]
      exact hnext

theorem count_upTo (c : EntsoeClient) (p : Platform) (n : Nat) :
    (upTo c p n).countP Mark.isRequest = n + 1 := by
  induction n with
  | zero => rfl
  | succ n ih =>
      unfold upTo at ih ⊢
      rw [failed, List.countP_append, List.countP_append, ih]
      rfl

/-! ### How the call ends -/

/-- It ends with the first answer that decides. -/
theorem fetch_decided {result : Py FetchResult} (hn : n < c.maxAttempts) (hfails : FailsThrough p n)
    (hpauses : PausesThrough c n) (hverdict : verdict p (n + 1) = some result) :
    c.fetch p = (result, upTo c p n) := by
  unfold fetch
  rw [attempts_eq hn hfails hpauses, attempt_decided hverdict]
  rfl

/-- It ends after the last attempt. -/
theorem fetch_exhausted (hn : n + 1 = c.maxAttempts) (hfails : FailsThrough p (n + 1))
    (hpauses : PausesThrough c n) :
    c.fetch p = (raise .EntsoeUnavailable
      [.text "giving up after ", .int c.maxAttempts, .text " attempts"], upTo c p n) := by
  have hbefore : FailsThrough p n := fun j hj hjn => hfails j hj (by omega)
  unfold fetch
  rw [attempts_eq (by omega) hbefore hpauses,
    attempt_transient (hfails (n + 1) (by omega) (le_refl _)), pause_last (by omega), ← hn,
    Nat.sub_self]
  rfl

/-- It ends with a pause that cannot be computed. -/
theorem fetch_overflows (hn : n + 1 < c.maxAttempts) (hfails : FailsThrough p (n + 1))
    (hpauses : PausesThrough c n) (hfloat : ¬ n + 1 ≤ 1024) :
    c.fetch p =
      (raise .OverflowError [.text "int too large to convert to float"], upTo c p n) := by
  have hbefore : FailsThrough p n := fun j hj hjn => hfails j hj (by omega)
  have hpause : c.pause p (n + 1) (upTo c p n) =
      .error (raise .OverflowError [.text "int too large to convert to float"], upTo c p n) := by
    unfold pause EntsoeClient.backoff Gridlens.backoff
    rw [if_pos hn, if_neg hfloat]
    rfl
  unfold upTo at hpause ⊢
  unfold fetch
  rw [attempts_eq (by omega) hbefore hpauses,
    attempt_transient (hfails (n + 1) (by omega) (le_refl _)), hpause]
  rfl

/-- A pause that is due and cannot be computed, or has a ceiling below zero, is
in the way of the requests after it. -/
theorem not_spaced {m : Nat} (hn : n + 1 < c.maxAttempts) (hfails : FailsThrough p (n + 1))
    (hpauses : PausesThrough c n) (hbad : ¬ (n + 1 ≤ 1024 ∧ 0 ≤ c.ceiling (n + 1)))
    (hm : n + 1 < m) : ¬ Spaced c.Allowed m (c.fetch p).2 := by
  have hbefore : FailsThrough p n := fun j hj hjn => hfails j hj (by omega)
  have hloop := attempts_eq (by omega) hbefore hpauses
  rw [attempt_transient (hfails (n + 1) (by omega) (le_refl _))] at hloop
  intro hspaced
  rcases @pause_cases c p (upTo c p n) _ hn with ⟨hpause, hfloat, hdrawn⟩ | ⟨result, hpause⟩
  · -- the ceiling is below zero, and the pause over it
    have hpre : upTo c p n ++ [.paused (c.drawn p (n + 1))] <+: (c.fetch p).2 := by
      rw [fetch_marks, hloop, show failed c p n ++ [.prepared, .requested (n + 1)] = upTo c p n
        from rfl, hpause]
      exact attempts_extend _ _
    rcases hpre with ⟨back, hback⟩
    rw [← hback, List.append_assoc, List.singleton_append] at hspaced
    have hallowed : c.drawn p (n + 1) ≤ c.ceiling ((upTo c p n).countP Mark.isRequest) :=
      hspaced.allowed rfl
    rw [count_upTo] at hallowed
    exact hbad ⟨hfloat, hdrawn.trans hallowed⟩
  · have hmarks : c.fetch p = (result, upTo c p n) := by
      unfold upTo at hpause ⊢
      unfold fetch
      rw [hloop, hpause]
      rfl
    rw [hmarks] at hspaced
    have hcount := hspaced.count
    rw [count_upTo] at hcount
    omega

end Loop

/-! ## When it does -/

section When

variable {c : EntsoeClient} {p : Platform} {n : Nat}

/-- An answer decides within the attempts, or all of them fail. -/
theorem exists_verdict (c : EntsoeClient) (p : Platform) :
    (∃ n result, n < c.maxAttempts ∧ FailsThrough p n ∧ verdict p (n + 1) = some result) ∨
      FailsThrough p c.maxAttempts := by
  by_cases hall : FailsThrough p c.maxAttempts
  · exact Or.inr hall
  · left
    have hexists : ∃ n, n < c.maxAttempts ∧ (verdict p (n + 1)).isSome = true := by
      by_contra hnone
      refine hall fun j hj hjmax => transient_iff.mpr ?_
      rw [← Option.not_isSome_iff_eq_none]
      intro hsome
      exact hnone ⟨j - 1, by omega, by rwa [Nat.sub_add_cancel hj]⟩
    rcases Nat.find_spec hexists with ⟨hlt, hsome⟩
    rcases Option.isSome_iff_exists.mp hsome with ⟨result, hresult⟩
    refine ⟨Nat.find hexists, result, hlt, fun j hj hjn => transient_iff.mpr ?_, hresult⟩
    rw [← Option.not_isSome_iff_eq_none]
    intro hearlier
    refine Nat.find_min hexists (m := j - 1) (by omega) ⟨by omega, ?_⟩
    rwa [Nat.sub_add_cancel hj]

/-- The pauses up to here, where each one that is due can be slept through. -/
theorem pausesThrough_of (hpauses : c.Pauses p) (hn : n < c.maxAttempts)
    (hfails : FailsThrough p n) : PausesThrough c n := by
  intro k hk hkn
  have hdue := hpauses k hk (by omega) fun j hj hjk => hfails j hj (by omega)
  exact ⟨by omega, hdue.1, ceiling_nonneg.mpr hdue.2⟩

theorem retries_of_pauses (hpauses : c.Pauses p) : c.Retries p (c.fetch p) := by
  constructor
  · intro i result hi himax hfails hverdict
    have hbefore := pausesThrough_of hpauses (by omega) hfails
    have hfetch : c.fetch p = (result, upTo c p (i - 1)) := by
      refine fetch_decided (by omega) hfails hbefore ?_
      rw [Nat.sub_add_cancel hi]
      exact hverdict
    rw [hfetch]
    have hspaced := spaced_upTo (p := p) fun k hk hkn => (hbefore k hk hkn).2.2
    rw [Nat.sub_add_cancel hi] at hspaced
    exact ⟨rfl, hspaced⟩
  · intro hfails
    have hmax : c.maxAttempts - 1 + 1 = c.maxAttempts := Nat.sub_add_cancel c.max_attempts
    have hbefore := pausesThrough_of (n := c.maxAttempts - 1) hpauses (by omega)
      fun j hj hjn => hfails j hj (by omega)
    rw [fetch_exhausted hmax (by rwa [hmax]) hbefore]
    have hspaced := spaced_upTo (p := p) fun k hk hkn => (hbefore k hk hkn).2.2
    rw [hmax] at hspaced
    exact ⟨rfl, hspaced⟩

/-- A pause that is due is between two requests. -/
theorem exists_spaced (h : c.Retries p (c.fetch p)) (hn : n < c.maxAttempts)
    (hfails : FailsThrough p n) : ∃ m, n < m ∧ Spaced c.Allowed m (c.fetch p).2 := by
  rcases exists_verdict c p with ⟨m, result, hm, hmfails, hverdict⟩ | hall
  · have hlt : n < m + 1 := by
      by_contra hge
      have htransient := hfails (m + 1) (by omega) (by omega)
      rw [transient_iff, hverdict] at htransient
      cases htransient
    exact ⟨m + 1, hlt, (h.decided (m + 1) result (by omega) (by omega) hmfails hverdict).2⟩
  · exact ⟨c.maxAttempts, hn, (h.exhausted hall).2⟩

theorem pauses_of_retries (h : c.Retries p (c.fetch p)) : c.Pauses p := by
  intro k hk hkmax hfails
  suffices hgood : k ≤ 1024 ∧ 0 ≤ c.ceiling k by
    rw [ceiling_nonneg] at hgood
    exact hgood
  -- the pauses before it are slept through
  induction k using Nat.strong_induction_on with
  | _ k ih =>
      obtain ⟨n, rfl⟩ := Nat.exists_eq_add_of_le' hk
      have hbefore : PausesThrough c n := by
        intro j hj hjn
        have hgood := ih j (by omega) hj (by omega) fun i hi hij => hfails i hi (by omega)
        exact ⟨by omega, hgood⟩
      by_contra hbad
      rcases exists_spaced h hkmax hfails with ⟨m, hm, hspaced⟩
      exact not_spaced hkmax hfails hbefore hbad hm hspaced

end When

/-- Nothing but transport errors. -/
def outage : Platform where
  data _ := .transport
  now _ := ⟨63923428800000000, lateReading_inRange⟩
  fromstring _ := raise .ParseError []
  seconds _ := none
  random _ := 0
  random_mem _ := ⟨le_refl 0, one_pos⟩

/-- One attempt more than there are floats for. -/
def patient : EntsoeClient := ⟨1026, 1 / 2, 8, by decide⟩

theorem ceiling_patient (n : Nat) : 0 ≤ patient.ceiling n :=
  ceiling_nonneg.mpr ⟨by norm_num [patient], by norm_num [patient]⟩

end EntsoeClient

end Gridlens
