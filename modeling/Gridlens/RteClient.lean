import Mathlib.Data.List.Range
import Mathlib.Data.List.TakeWhile
import Gridlens.Outside
import Gridlens.RteParse

/-!
# The attempts of the RTE client

`RteClient.fetch`: a data endpoint and a token endpoint, a cached token that
expires, one forced refresh and an attempt budget, all in one loop. An attempt
asks either endpoint at most once, so what they answer is given by the attempt.

The loop spends an attempt on the first 401 and lets a token endpoint that is
down end it. `fetch_spends_iff` says in which sequences of answers it does what
its docstrings say all the same.
-/

namespace Gridlens

/-! ## The client -/

/-- How a request to the data endpoint ends. -/
inductive DataAnswer where
  | transport
  | response (statusCode : Int) (content : Bytes) (retryAfter : Option String)

/-- How a request to the token endpoint ends; `none` is no json. -/
inductive TokenAnswer where
  | transport
  | response (statusCode : Int) (json : Option Json)

/-- What the endpoints and the clock say at each attempt. -/
structure Endpoints where
  data : Nat → DataAnswer
  token : Nat → TokenAnswer
  /-- `self._now()`, before the cached token is used, when a token is there,
  and when a body is. -/
  checked : Nat → Instant
  issued : Nat → Instant
  fetched : Nat → Instant
  /-- `timedelta(seconds=max(0.0, float(value) - TOKEN_SKEW_SECONDS))`, where
  nothing is 3600. -/
  lifetime : Option Json → Py Int
  lifetime_raises : ∀ value error, lifetime value = .error error →
    error.kind = .ValueError ∨ error.kind = .TypeError ∨ error.kind = .OverflowError
  /-- `f"{float(header):.0f}"`, where that is a number. -/
  seconds : String → Option String

/-- The fields of `RteClient` that change. -/
structure RteClient where
  token : Option String
  expiresAt : Instant
  tokenFetches : Nat

/-- A request the client sent: the attempt, and the token it went with. -/
inductive Request where
  | token (attempt : Nat)
  | data (attempt : Nat) (bearer : String)

/-- The attempt a request belongs to. -/
def Request.attempt : Request → Nat
  | .token attempt => attempt
  | .data attempt _ => attempt

abbrev RATE_LIMIT_COOLDOWN_SECONDS : String := "300"

/-- `_retry_after`. -/
def retryAfter (o : Endpoints) (header : Option String) : String :=
  match header with
  | some header =>
      if header ≠ "" then (o.seconds header).getD RATE_LIMIT_COOLDOWN_SECONDS
      else RATE_LIMIT_COOLDOWN_SECONDS
  | none => RATE_LIMIT_COOLDOWN_SECONDS

namespace RteClient

/-- The cached token, while it can be used. -/
def usable (c : RteClient) (now : Instant) : Option String :=
  c.token.filter fun token => token ≠ "" ∧ now.micros < c.expiresAt.micros

/-- `payload["access_token"]`. -/
def accessToken (json : Option Json) : Py (Json × String) := do
  match json with
  | none => raise .ValueError [.text "Expecting value"]
  | some payload => .ok (payload, (← payload.getItem "access_token").str)

/-- When a token that was just issued is to be renewed. -/
def renewal (o : Endpoints) (attempt : Nat) (payload : Json) : Py Instant := do
  let lifetime ← o.lifetime (← payload.get "expires_in")
  Instant.ofMicros ((o.issued attempt).micros + lifetime)

/-- `_bearer`: the token, and the client as it is left. -/
def bearer (o : Endpoints) (attempt : Nat) (c : RteClient) : Py String × RteClient :=
  match c.usable (o.checked attempt) with
  | some token => (.ok token, c)
  | none =>
      match o.token attempt with
      | .transport => (raise .TransportError [], c)
      | .response status json =>
          if status = 400 ∨ status = 401 then
            (raise .RteAuthError [.text "credentials rejected by the token endpoint"], c)
          else if status ≠ 200 then
            (raise .RteUnavailable [.text "token endpoint returned http ", .int status], c)
          else match accessToken json with
            | .error error => (.error error, c)
            | .ok (payload, token) =>
                match renewal o attempt payload with
                | .error error => (.error error, { c with token := some token })
                | .ok expiresAt => (.ok token, ⟨some token, expiresAt, c.tokenFetches + 1⟩)

/-- The requests of `_bearer`. -/
def asked (o : Endpoints) (attempt : Nat) (c : RteClient) : List Request :=
  if (c.usable (o.checked attempt)).isNone then [.token attempt] else []

end RteClient

/-- `_backoff`, of which only the exception is of interest: the power of two is
to be a float. -/
def backoff (attempt : Nat) : Py Unit :=
  if attempt ≤ 1024 then .ok ()
  else raise .OverflowError [.text "int too large to convert to float"]

/-- `fetch` under way: the client, whether it has been refreshed, and the
requests sent so far. -/
structure Fetching where
  client : RteClient
  refreshed : Bool
  calls : List Request

/-- How the loop is left. -/
abbrev Left := Py FetchResult × Fetching

/-- The pause at the end of the loop body, if there is another attempt. -/
def Fetching.pause (maxAttempts attempt : Nat) (s : Fetching) : Except Left Fetching :=
  if attempt < maxAttempts then
    match backoff attempt with
    | .error error => .error (.error error, s)
    | .ok () => .ok s
  else .ok s

/-- The loop body of `fetch`: it goes on, or leaves. -/
def Fetching.attempt (o : Endpoints) (maxAttempts : Nat) (s : Fetching) (attempt : Nat) :
    Except Left Fetching :=
  let asked := s.calls ++ s.client.asked o attempt
  match s.client.bearer o attempt with
  | (.error error, client) =>
      -- `except httpx.TransportError` is around `_bearer` too
      if error.kind = .TransportError then
        Fetching.pause maxAttempts attempt ⟨client, s.refreshed, asked⟩
      else .error (.error error, ⟨client, s.refreshed, asked⟩)
  | (.ok token, client) =>
      let s : Fetching := ⟨client, s.refreshed, asked ++ [.data attempt token]⟩
      match o.data attempt with
      | .transport => s.pause maxAttempts attempt
      | .response status content header =>
          if status = 401 ∧ !s.refreshed then
            .ok { s with client := { client with token := none }, refreshed := true }
          else if status = 401 then
            .error (raise .RteAuthError [.text "credentials rejected"], s)
          else if status = 403 then
            .error (raise .RteNoApplication
              [.text "no application subscribed to this api on the data portal"], s)
          else if status = 429 then
            .error (raise .RateLimited [.text "rate limited, do not retry for ",
              .str (retryAfter o header), .text "s"], s)
          else if status < 500 then
            if 400 ≤ status then .error (raise .RteError [.text "http ", .int status], s)
            else .error (.ok ⟨content, o.fetched attempt, status⟩, s)
          else s.pause maxAttempts attempt

/-- The attempts from this one on. -/
def Fetching.attempts (o : Endpoints) (maxAttempts first count : Nat) (s : Fetching) :
    Except Left Fetching :=
  (List.range' first count).foldlM (Fetching.attempt o maxAttempts) s

/-- `fetch`. -/
def RteClient.fetch (o : Endpoints) (maxAttempts : Nat) (c : RteClient) : Left :=
  match Fetching.attempts o maxAttempts 1 maxAttempts ⟨c, false, []⟩ with
  | .error left => left
  | .ok s =>
      (raise .RteUnavailable [.text "giving up after ", .int maxAttempts, .text " attempts"], s)

/-! ## What the answers are -/

/-- A failure that may clear. -/
def DataAnswer.Transient : DataAnswer → Prop
  | .transport => True
  | .response status _ _ => 500 ≤ status

def TokenAnswer.Transient : TokenAnswer → Prop
  | .transport => True
  | .response status _ => 500 ≤ status

/-- A 401. -/
def DataAnswer.unauthorised : DataAnswer → Bool
  | .response status _ _ => status = 401
  | .transport => false

/-- The token endpoint rejects the credentials. -/
def TokenAnswer.Rejects : TokenAnswer → Prop
  | .response status _ => status = 400 ∨ status = 401
  | .transport => False

/-- The token endpoint issues this token, when it is asked at this attempt. -/
def Endpoints.Issues (o : Endpoints) (attempt : Nat) (token : String) : Prop :=
  ∃ json payload expiresAt, o.token attempt = .response 200 json ∧
    RteClient.accessToken json = .ok (payload, token) ∧
    RteClient.renewal o attempt payload = .ok expiresAt

/-- A request that was answered 401. -/
def Endpoints.unauthorises (o : Endpoints) : Request → Bool
  | .data attempt _ => (o.data attempt).unauthorised
  | .token _ => false

def Request.isData : Request → Bool
  | .data _ _ => true
  | .token _ => false

/-! ## What `fetch` is to do -/

/-- One more request, with a token issued for it. -/
def Endpoints.Renewed (o : Endpoints) (calls : List Request) : Prop :=
  ∃ waited attempt token rest, calls = waited ++ .token attempt :: .data attempt token :: rest ∧
    o.Issues attempt token

/-- The last request was answered 401, and went with a token issued after an
earlier 401. -/
def Endpoints.StillUnauthorised (o : Endpoints) (calls : List Request) : Prop :=
  ∃ first refused between attempt issued last token, calls =
    first ++ refused :: between ++ .token attempt :: issued ++ [.data last token] ∧
      o.unauthorises refused ∧ o.Issues attempt token ∧ o.unauthorises (.data last token)

/-- An attempt that failed in a way that may clear. -/
def Endpoints.FailedTransiently (o : Endpoints) (calls : List Request) (attempt : Nat) : Prop :=
  (.token attempt ∈ calls ∧ (o.token attempt).Transient) ∨
    ∃ token, .data attempt token ∈ calls ∧ (o.data attempt).Transient

/-- The attempts are spent the way the docstrings say. -/
structure Endpoints.Spent (o : Endpoints) (maxAttempts : Nat) (left : Left) : Prop where
  requests : (left.2.calls.filter Request.isData).length ≤ maxAttempts + 1
  retried : ∀ refused after,
    left.2.calls.dropWhile (fun call => !o.unauthorises call) = refused :: after → o.Renewed after
  unauthorised : ∀ error, left.1 = .error error → error.kind = .RteAuthError →
    (∃ attempt, .token attempt ∈ left.2.calls ∧ (o.token attempt).Rejects) ∨
      o.StillUnauthorised left.2.calls
  unavailable : ∀ error, left.1 = .error error → error.kind = .RteUnavailable →
    ∀ attempt, 1 ≤ attempt → attempt ≤ maxAttempts → o.FailedTransiently left.2.calls attempt

/-! ## When it does -/

section When

variable (o : Endpoints) (maxAttempts : Nat)

/-- The attempt fails in a way that may clear, with this client. -/
def RteClient.FailsHere (attempt : Nat) (c : RteClient) : Prop :=
  match c.bearer o attempt with
  | (.error error, _) => error.kind = .TransportError
  | (.ok _, _) => (o.data attempt).Transient

/-- So it does, and the call goes on. -/
def RteClient.Fails (attempt : Nat) (c : RteClient) : Prop :=
  c.FailsHere o attempt ∧ (attempt < maxAttempts → backoff attempt = .ok ())

/-- The data endpoint answers 401. -/
def RteClient.Unauthorised (attempt : Nat) (c : RteClient) : Prop :=
  ∃ token, (c.bearer o attempt).1 = .ok token ∧ (o.data attempt).unauthorised

/-- The token endpoint answers neither with a token nor with a rejection. -/
def RteClient.TurnedAway (attempt : Nat) (c : RteClient) : Prop :=
  ∃ error, (c.bearer o attempt).1 = .error error ∧ error.kind = .RteUnavailable

/-- The client after some more attempts that got past `_bearer` or failed there. -/
def RteClient.held (first : Nat) (c : RteClient) : Nat → RteClient
  | 0 => c
  | count + 1 => ((RteClient.held first c count).bearer o (first + count)).2

/-- So many attempts fail, and the call goes on. -/
def RteClient.FailsFor (first count : Nat) (c : RteClient) : Prop :=
  ∀ n < count, (c.held o first n).Fails o maxAttempts (first + n)

/-- The client without its token. -/
def RteClient.forgetful (c : RteClient) : RteClient := { c with token := none }

/-- The attempts left get over a 401: after some that fail one ends the call,
other than by a token endpoint that turns the client away, and a token is
issued by then. -/
def RteClient.Recovers (first left : Nat) (c : RteClient) : Prop :=
  ∃ n < left, c.FailsFor o maxAttempts first n ∧
    ¬ (c.held o first n).Fails o maxAttempts (first + n) ∧
    ¬ (c.held o first n).TurnedAway o (first + n) ∧ ∃ m ≤ n, ∃ token, o.Issues (first + m) token

/-- Where nothing but failures that may clear came before: the token endpoint
turns the client away in the last attempt at most, by a failure that may
clear; and the attempts left after a 401 get over it. -/
def RteClient.SpendsWell (c : RteClient) : Prop :=
  ∀ n < maxAttempts, c.FailsFor o maxAttempts 1 n →
    ((c.held o 1 n).TurnedAway o (1 + n) → 1 + n = maxAttempts ∧ (o.token (1 + n)).Transient) ∧
    ((c.held o 1 n).Unauthorised o (1 + n) →
      (c.held o 1 (n + 1)).forgetful.Recovers o maxAttempts (1 + n + 1) (maxAttempts - (n + 1)))

end When

section Attempts

variable {o : Endpoints} {maxAttempts : Nat} {s s' : Fetching} {c : RteClient}
  {attempt first count n : Nat} {left : Left}

/-- What reading a token can raise is none of the client's own exceptions. -/
abbrev Exc.OfReading (kind : Exc) : Prop :=
  kind ≠ .TransportError ∧ kind ≠ .RteAuthError ∧ kind ≠ .RteUnavailable

theorem ofReading_getItem {key : String} {json : Json} {error : PyError}
    (h : json.getItem key = .error error) : error.kind.OfReading := by
  unfold Json.getItem at h
  split at h
  · split at h
    · cases h
    · cases h
      exact (by decide : Exc.KeyError.OfReading)
  · cases h
    exact (by decide : Exc.TypeError.OfReading)

theorem ofReading_accessToken {json : Option Json} {error : PyError}
    (h : RteClient.accessToken json = .error error) : error.kind.OfReading := by
  unfold RteClient.accessToken at h
  split at h
  · cases h
    exact (by decide : Exc.ValueError.OfReading)
  · rename_i payload
    cases hitem : payload.getItem "access_token" with
    | ok value =>
        rw [hitem] at h
        cases h
    | error e =>
        rw [hitem] at h
        cases h
        exact ofReading_getItem hitem

theorem ofReading_renewal {payload : Json} {error : PyError}
    (h : RteClient.renewal o attempt payload = .error error) : error.kind.OfReading := by
  unfold RteClient.renewal at h
  cases hget : payload.get "expires_in" with
  | error e =>
      rw [hget] at h
      cases h
      unfold Json.get at hget
      split at hget
      · cases hget
      · cases hget
        exact (by decide : Exc.AttributeError.OfReading)
  | ok value =>
      rw [hget, ok_bind] at h
      cases hlife : o.lifetime value with
      | error e =>
          rw [hlife] at h
          cases h
          rcases o.lifetime_raises _ _ hlife with hkind | hkind | hkind
          all_goals
            rw [hkind]
            decide
      | ok lifetime =>
          rw [hlife, ok_bind] at h
          unfold Instant.ofMicros at h
          split at h
          · cases h
          · cases h
            exact (by decide : Exc.OverflowError.OfReading)

/-- A token is the cached one, or one just issued. -/
theorem bearer_ok {token : String} (h : (c.bearer o attempt).1 = .ok token) :
    (c.token = some token ∧ c.asked o attempt = [] ∧ (c.bearer o attempt).2 = c) ∨
      (c.asked o attempt = [.token attempt] ∧ o.Issues attempt token ∧
        (c.bearer o attempt).2.token = some token) := by
  unfold RteClient.bearer at h ⊢
  unfold RteClient.asked
  cases husable : c.usable (o.checked attempt) with
  | some cached =>
      rw [husable] at h
      cases h
      exact Or.inl ⟨(Option.filter_eq_some_iff.mp husable).1, rfl, rfl⟩
  | none =>
      rw [husable] at h
      refine Or.inr ⟨rfl, ?_⟩
      unfold Endpoints.Issues
      cases hanswer : o.token attempt with
      | transport =>
          rw [hanswer] at h
          cases h
      | response status json =>
          rw [hanswer] at h
          simp only at h ⊢
          split at h
          · cases h
          · rename_i hreject
            split at h
            · cases h
            · rename_i hother
              rw [if_neg hreject, if_neg hother]
              cases not_not.mp hother
              cases hread : RteClient.accessToken json with
              | error error =>
                  rw [hread] at h
                  cases h
              | ok read =>
                  rcases read with ⟨payload, issued⟩
                  rw [hread] at h
                  simp only at h ⊢
                  cases hrenewal : RteClient.renewal o attempt payload with
                  | error error =>
                      rw [hrenewal] at h
                      cases h
                  | ok expiresAt =>
                      rw [hrenewal] at h
                      cases h
                      exact ⟨⟨json, payload, expiresAt, rfl, hread, hrenewal⟩, rfl⟩

/-- Without a token, none was issued; the exception says how the endpoint was
reached. -/
theorem bearer_error {error : PyError} (h : (c.bearer o attempt).1 = .error error) :
    c.asked o attempt = [.token attempt] ∧ (∀ token, ¬ o.Issues attempt token) ∧
      (error.kind = .TransportError → (o.token attempt).Transient ∧ (c.bearer o attempt).2 = c) ∧
      (error.kind = .RteAuthError → (o.token attempt).Rejects) := by
  unfold RteClient.bearer at h ⊢
  unfold RteClient.asked
  cases husable : c.usable (o.checked attempt) with
  | some cached =>
      rw [husable] at h
      cases h
  | none =>
      rw [husable] at h
      refine ⟨rfl, ?_⟩
      unfold Endpoints.Issues
      cases hanswer : o.token attempt with
      | transport =>
          rw [hanswer] at h
          cases h
          exact ⟨by simp, fun _ => ⟨trivial, rfl⟩, fun hkind => by cases hkind⟩
      | response status json =>
          rw [hanswer] at h
          simp only at h ⊢
          split at h
          · rename_i hreject
            cases h
            refine ⟨?_, fun hkind => (by cases hkind), fun _ => hreject⟩
            rintro token ⟨json', payload, expiresAt, heq, -⟩
            cases heq
            omega
          · rename_i hreject
            split at h
            · rename_i hother
              cases h
              refine ⟨?_, fun hkind => (by cases hkind), fun hkind => (by cases hkind)⟩
              rintro token ⟨json', payload, expiresAt, heq, -⟩
              cases heq
              exact hother rfl
            · rename_i hother
              cases not_not.mp hother
              cases hread : RteClient.accessToken json with
              | error readError =>
                  rw [hread] at h
                  cases h
                  have hkind := ofReading_accessToken hread
                  refine ⟨?_, fun h => absurd h hkind.1, fun h => absurd h hkind.2.1⟩
                  rintro token ⟨json', payload, expiresAt, heq, hread', -⟩
                  cases heq
                  cases hread.symm.trans hread'
              | ok read =>
                  rcases read with ⟨payload, token⟩
                  rw [hread] at h
                  simp only at h
                  cases hrenewal : RteClient.renewal o attempt payload with
                  | ok expiresAt =>
                      rw [hrenewal] at h
                      cases h
                  | error renewalError =>
                      rw [hrenewal] at h
                      cases h
                      have hkind := ofReading_renewal hrenewal
                      refine ⟨?_, fun h => absurd h hkind.1, fun h => absurd h hkind.2.1⟩
                      rintro token' ⟨json', payload', expiresAt, heq, hread', hrenewal'⟩
                      cases heq
                      cases hread.symm.trans hread'
                      cases hrenewal.symm.trans hrenewal'

/-- The requests of an attempt. -/
def RteClient.sent (o : Endpoints) (attempt : Nat) (c : RteClient) : List Request :=
  c.asked o attempt ++ match (c.bearer o attempt).1 with
    | .ok token => [.data attempt token]
    | .error _ => []

/-- The requests of some more attempts. -/
def RteClient.sentFor (o : Endpoints) (first : Nat) (c : RteClient) : Nat → List Request
  | 0 => []
  | count + 1 => c.sentFor o first count ++ (c.held o first count).sent o (first + count)

/-- A pause that can be made goes on. -/
theorem pause_ok (h : attempt < maxAttempts → backoff attempt = .ok ()) :
    s.pause maxAttempts attempt = .ok s := by
  unfold Fetching.pause
  split_ifs with hmore
  · rw [h hmore]
  · rfl

/-- One that cannot ends the call, by none of the client's own exceptions. -/
theorem pause_error (h : ¬ (attempt < maxAttempts → backoff attempt = .ok ())) :
    s.pause maxAttempts attempt =
      .error (raise .OverflowError [.text "int too large to convert to float"], s) := by
  rcases Classical.not_imp.mp h with ⟨hmore, hraises⟩
  unfold Fetching.pause
  rw [if_pos hmore]
  unfold backoff at hraises ⊢
  split_ifs at hraises ⊢ with hsmall
  · exact absurd rfl hraises
  · rfl

/-- An attempt that fails in a way that may clear comes to the pause. -/
theorem attempt_of_failsHere (h : s.client.FailsHere o attempt) :
    s.attempt o maxAttempts attempt = Fetching.pause maxAttempts attempt
      ⟨(s.client.bearer o attempt).2, s.refreshed, s.calls ++ s.client.sent o attempt⟩ := by
  unfold RteClient.FailsHere at h
  unfold Fetching.attempt RteClient.sent
  rcases hbearer : s.client.bearer o attempt with ⟨result, client⟩
  rw [hbearer] at h
  cases result with
  | error error =>
      simp only at h ⊢
      rw [if_pos h, List.append_nil]
  | ok token =>
      simp only at h ⊢
      cases hdata : o.data attempt with
      | transport => rw [List.append_assoc]
      | response status content header =>
          rw [hdata] at h
          have hstatus : 500 ≤ status := h
          simp only
          rw [if_neg (by omega), if_neg (by omega), if_neg (by omega), if_neg (by omega),
            if_neg (by omega), List.append_assoc]

/-- An attempt that fails goes on. -/
theorem attempt_of_fails (h : s.client.Fails o maxAttempts attempt) :
    s.attempt o maxAttempts attempt = .ok ⟨(s.client.bearer o attempt).2, s.refreshed,
      s.calls ++ s.client.sent o attempt⟩ := by
  rw [attempt_of_failsHere h.1, pause_ok h.2]

/-- The first 401 goes on without the token, the second one ends the call. -/
theorem attempt_of_unauthorised (h : s.client.Unauthorised o attempt) :
    s.attempt o maxAttempts attempt = if s.refreshed then
      .error (raise .RteAuthError [.text "credentials rejected"],
        ⟨(s.client.bearer o attempt).2, true, s.calls ++ s.client.sent o attempt⟩)
    else .ok ⟨{ (s.client.bearer o attempt).2 with token := none }, true,
      s.calls ++ s.client.sent o attempt⟩ := by
  rcases h with ⟨token, htoken, hdata⟩
  unfold Fetching.attempt RteClient.sent
  rcases hbearer : s.client.bearer o attempt with ⟨result, client⟩
  rw [hbearer] at htoken
  cases htoken
  simp only
  cases hanswer : o.data attempt with
  | transport =>
      rw [hanswer] at hdata
      cases hdata
  | response status content header =>
      rw [hanswer] at hdata
      have hstatus : status = 401 := of_decide_eq_true hdata
      simp only
      cases hrefreshed : s.refreshed with
      | true => rw [if_neg (by simp), if_pos hstatus, if_pos rfl, List.append_assoc]
      | false => rw [if_pos ⟨hstatus, rfl⟩, if_neg (by simp), List.append_assoc]

/-- A failure of `_bearer` that may clear is one of the transport. -/
theorem FailsHere.kind {error : PyError} (h : c.FailsHere o attempt)
    (herror : (c.bearer o attempt).1 = .error error) : error.kind = .TransportError := by
  unfold RteClient.FailsHere at h
  rcases hbearer : c.bearer o attempt with ⟨result, client⟩
  rw [hbearer] at h herror
  cases herror
  exact h

theorem FailsHere.not_turnedAway (h : c.FailsHere o attempt) : ¬ c.TurnedAway o attempt := by
  rintro ⟨error, herror, hkind⟩
  cases hkind.symm.trans (FailsHere.kind h herror)

/-- The attempt ends the call with this result; only `_bearer` raises the two
exceptions of the client's own. -/
structure Fetching.Leaves (o : Endpoints) (maxAttempts attempt : Nat) (s : Fetching)
    (result : Py FetchResult) : Prop where
  left : s.attempt o maxAttempts attempt = .error (result,
    ⟨(s.client.bearer o attempt).2, s.refreshed, s.calls ++ s.client.sent o attempt⟩)
  turnedAway : (∃ error, result = .error error ∧ error.kind = .RteUnavailable) ↔
    s.client.TurnedAway o attempt
  rejected : ∀ error, result = .error error → error.kind = .RteAuthError →
    .token attempt ∈ s.client.sent o attempt ∧ (o.token attempt).Rejects

theorem leaves_of_foreign {result : Py FetchResult}
    (hattempt : s.attempt o maxAttempts attempt = .error (result,
      ⟨(s.client.bearer o attempt).2, s.refreshed, s.calls ++ s.client.sent o attempt⟩))
    (haway : ¬ s.client.TurnedAway o attempt) (hkinds : ∀ error, result = .error error →
      error.kind ≠ .RteUnavailable ∧ error.kind ≠ .RteAuthError) :
    s.Leaves o maxAttempts attempt result := by
  refine ⟨hattempt, iff_of_false ?_ haway, fun error herror hkind =>
    absurd hkind (hkinds error herror).2⟩
  rintro ⟨error, herror, hkind⟩
  exact (hkinds error herror).1 hkind

/-- `_bearer` raises what may not clear. -/
theorem leaves_of_error {error : PyError} (herror : (s.client.bearer o attempt).1 = .error error)
    (hfails : ¬ s.client.FailsHere o attempt) : s.Leaves o maxAttempts attempt (.error error) := by
  rcases bearer_error herror with ⟨hasked, -, -, hrejects⟩
  have hsent : s.client.sent o attempt = [.token attempt] := by
    unfold RteClient.sent
    rw [herror, hasked]
    rfl
  refine ⟨?_, ?_, ?_⟩
  · unfold RteClient.FailsHere at hfails
    unfold Fetching.attempt
    rcases hbearer : s.client.bearer o attempt with ⟨result, client⟩
    rw [hbearer] at hfails herror
    cases herror
    simp only
    rw [if_neg hfails, hasked, hsent]
  · unfold RteClient.TurnedAway
    rw [herror]
    simp only [Except.error.injEq]
  · rintro _ ⟨⟩ hkind
    rw [hsent]
    exact ⟨List.mem_singleton_self _, hrejects hkind⟩

/-- The data endpoint answers for good. -/
theorem leaves_of_answer {token : String} (htoken : (s.client.bearer o attempt).1 = .ok token)
    (hfails : ¬ s.client.FailsHere o attempt) (hunauthorised : ¬ s.client.Unauthorised o attempt) :
    ∃ result, s.Leaves o maxAttempts attempt result := by
  have haway : ¬ s.client.TurnedAway o attempt := by
    rintro ⟨error, herror, -⟩
    cases herror.symm.trans htoken
  -- no answer of it is one of the two exceptions
  suffices hends : ∃ result, s.attempt o maxAttempts attempt = .error (result,
      ⟨(s.client.bearer o attempt).2, s.refreshed, s.calls ++ s.client.sent o attempt⟩) ∧
      ∀ error, result = .error error →
        error.kind ≠ .RteUnavailable ∧ error.kind ≠ .RteAuthError by
    rcases hends with ⟨result, hattempt, hkinds⟩
    exact ⟨result, leaves_of_foreign hattempt haway hkinds⟩
  unfold RteClient.FailsHere at hfails
  unfold RteClient.Unauthorised at hunauthorised
  unfold Fetching.attempt RteClient.sent
  rcases hbearer : s.client.bearer o attempt with ⟨result, client⟩
  rw [hbearer] at hfails hunauthorised htoken
  cases htoken
  rw [← List.append_assoc]
  simp only at hfails ⊢
  cases hdata : o.data attempt with
  | transport =>
      rw [hdata] at hfails
      exact absurd trivial hfails
  | response status content header =>
      rw [hdata] at hfails hunauthorised
      have hsmall : ¬ 500 ≤ status := hfails
      have hother : status ≠ 401 := fun heq =>
        hunauthorised ⟨token, rfl, decide_eq_true heq⟩
      simp only
      rw [if_neg (fun h => hother h.1), if_neg hother]
      split_ifs with h403 h429 hclient hhttp
      · exact ⟨_, rfl, by rintro _ ⟨⟩; exact ⟨nofun, nofun⟩⟩
      · exact ⟨_, rfl, by rintro _ ⟨⟩; exact ⟨nofun, nofun⟩⟩
      · exact ⟨_, rfl, by rintro _ ⟨⟩; exact ⟨nofun, nofun⟩⟩
      · exact ⟨_, rfl, by rintro _ ⟨⟩⟩
      · omega

/-- Any other attempt ends the call. -/
theorem attempt_of_ends (hfails : ¬ s.client.Fails o maxAttempts attempt)
    (hunauthorised : ¬ s.client.Unauthorised o attempt) :
    ∃ result, s.Leaves o maxAttempts attempt result := by
  by_cases hhere : s.client.FailsHere o attempt
  · -- the pause after it cannot be made
    have hpause := @attempt_of_failsHere o maxAttempts s attempt hhere
    rw [pause_error fun h => hfails ⟨hhere, h⟩] at hpause
    refine ⟨_, leaves_of_foreign hpause (FailsHere.not_turnedAway hhere) ?_⟩
    rintro _ ⟨⟩
    exact ⟨nofun, nofun⟩
  · cases hresult : (s.client.bearer o attempt).1 with
    | error error => exact ⟨_, leaves_of_error hresult hhere⟩
    | ok token => exact leaves_of_answer hresult hhere hunauthorised

/-! ### Attempts in a row -/

theorem attempts_append {first n m : Nat} : s.attempts o maxAttempts first (n + m) =
    s.attempts o maxAttempts first n >>= fun s' => s'.attempts o maxAttempts (first + n) m := by
  unfold Fetching.attempts
  rw [← List.range'_append_1, List.foldlM_append]

/-- Attempts that fail leave their requests behind, and the client as it is held. -/
theorem attempts_of_fails (h : s.client.FailsFor o maxAttempts first count) :
    s.attempts o maxAttempts first count = .ok ⟨s.client.held o first count, s.refreshed,
      s.calls ++ s.client.sentFor o first count⟩ := by
  induction count with
  | zero => rw [RteClient.sentFor, List.append_nil]; rfl
  | succ count ih =>
      rw [attempts_append, ih fun n hn => h n (Nat.lt_succ_of_lt hn)]
      have hlast := attempt_of_fails (s := ⟨s.client.held o first count, s.refreshed,
        s.calls ++ s.client.sentFor o first count⟩) (h count (Nat.lt_succ_self count))
      show Fetching.attempts o maxAttempts (first + count) 1 _ = _
      unfold Fetching.attempts
      rw [List.range'_one, List.foldlM_cons, hlast, RteClient.sentFor, List.append_assoc]
      rfl

/-- Either all attempts fail or one is the first that does not. -/
theorem failsFor_or_first (o : Endpoints) (first count : Nat) (c : RteClient) :
    c.FailsFor o maxAttempts first count ∨ ∃ n < count, c.FailsFor o maxAttempts first n ∧
      ¬ (c.held o first n).Fails o maxAttempts (first + n) := by
  induction count with
  | zero => exact Or.inl fun n hn => absurd hn (Nat.not_lt_zero n)
  | succ count ih =>
      rcases ih with hall | ⟨n, hn, hfirst⟩
      · by_cases hlast : (c.held o first count).Fails o maxAttempts (first + count)
        · refine Or.inl fun n hn => ?_
          rcases Nat.lt_succ_iff_lt_or_eq.mp hn with hlt | rfl
          · exact hall n hlt
          · exact hlast
        · exact Or.inr ⟨count, Nat.lt_succ_self count, hall, hlast⟩
      · exact Or.inr ⟨n, Nat.lt_succ_of_lt hn, hfirst⟩

theorem FailsFor.first_unique {n m : Nat} (hn : c.FailsFor o maxAttempts first n)
    (hn' : ¬ (c.held o first n).Fails o maxAttempts (first + n))
    (hm : c.FailsFor o maxAttempts first m)
    (hm' : ¬ (c.held o first m).Fails o maxAttempts (first + m)) : n = m := by
  rcases Nat.lt_trichotomy n m with hlt | heq | hlt
  · exact absurd (hm n hlt) hn'
  · exact heq
  · exact absurd (hn m hlt) hm'

/-! ### The requests -/

theorem attempt_of_mem_sent {request : Request} (h : request ∈ c.sent o attempt) :
    request.attempt = attempt := by
  unfold RteClient.sent RteClient.asked at h
  rcases List.mem_append.mp h with h | h
  · split_ifs at h
    · rw [List.mem_singleton.mp h]
      rfl
    · cases h
  · split at h
    · rw [List.mem_singleton.mp h]
      rfl
    · cases h

theorem attempt_of_mem_sentFor {request : Request} (h : request ∈ c.sentFor o first count) :
    first ≤ request.attempt ∧ request.attempt < first + count := by
  induction count with
  | zero => cases h
  | succ count ih =>
      rcases List.mem_append.mp h with h | h
      · have hrange := ih h
        omega
      · have heq := attempt_of_mem_sent h
        omega

/-- At most one data request an attempt. -/
theorem length_data_sent : ((c.sent o attempt).filter Request.isData).length ≤ 1 := by
  unfold RteClient.sent RteClient.asked
  rw [List.filter_append, List.length_append]
  have hasked : ((if (c.usable (o.checked attempt)).isNone then [Request.token attempt] else
      []).filter Request.isData).length = 0 := by
    split_ifs <;> rfl
  rw [hasked, Nat.zero_add]
  cases (c.bearer o attempt).1 with
  | ok token => exact Nat.le_refl 1
  | error error => exact Nat.zero_le 1

theorem length_data_sentFor : ((c.sentFor o first count).filter Request.isData).length ≤ count := by
  induction count with
  | zero => exact Nat.le_refl 0
  | succ count ih =>
      have hone := @length_data_sent o (c.held o first count) (first + count)
      rw [RteClient.sentFor, List.filter_append, List.length_append]
      omega

theorem sentFor_mono {n m : Nat} (h : n ≤ m) : c.sentFor o first n <+: c.sentFor o first m := by
  induction m with
  | zero =>
      cases Nat.le_zero.mp h
      exact List.prefix_rfl
  | succ m ih =>
      rcases Nat.le_succ_iff.mp h with hle | rfl
      · exact (ih hle).trans (List.prefix_append _ _)
      · exact List.prefix_rfl

/-- What an attempt that fails asked for in vain. -/
theorem FailsHere.failed (h : c.FailsHere o attempt) :
    o.FailedTransiently (c.sent o attempt) attempt := by
  unfold RteClient.FailsHere at h
  unfold RteClient.sent
  rcases hbearer : c.bearer o attempt with ⟨result, client⟩
  rw [hbearer] at h
  cases result with
  | error error =>
      rcases bearer_error (c := c) (by rw [hbearer]) with ⟨hasked, -, htransient, -⟩
      rw [hasked]
      exact Or.inl ⟨List.mem_singleton_self _, (htransient h).1⟩
  | ok token => exact Or.inr ⟨token, List.mem_append_right _ (List.mem_singleton_self _), h⟩

theorem FailedTransiently.mono {calls calls' : List Request} (hsub : calls ⊆ calls')
    (h : o.FailedTransiently calls attempt) : o.FailedTransiently calls' attempt := by
  rcases h with ⟨hmem, htransient⟩ | ⟨token, hmem, htransient⟩
  · exact Or.inl ⟨hsub hmem, htransient⟩
  · exact Or.inr ⟨token, hsub hmem, htransient⟩

/-- No failure that may clear is a 401. -/
theorem not_unauthorised_of_transient {answer : DataAnswer} (h : answer.Transient) :
    answer.unauthorised = false := by
  cases answer with
  | transport => rfl
  | response status content header =>
      have hstatus : 500 ≤ status := h
      exact decide_eq_false (by omega)

theorem FailsHere.not_unauthorised (h : c.FailsHere o attempt) : ¬ c.Unauthorised o attempt := by
  rintro ⟨token, htoken, hdata⟩
  unfold RteClient.FailsHere at h
  rcases hbearer : c.bearer o attempt with ⟨result, client⟩
  rw [hbearer] at h htoken
  cases htoken
  rw [not_unauthorised_of_transient h] at hdata
  cases hdata

theorem not_unauthorises_asked {request : Request} (h : request ∈ c.asked o attempt) :
    o.unauthorises request = false := by
  unfold RteClient.asked at h
  split_ifs at h
  · rw [List.mem_singleton.mp h]
    rfl
  · cases h

/-- Without a 401 no request is answered so. -/
theorem authorised_of_not (h : ¬ c.Unauthorised o attempt) :
    ∀ request ∈ c.sent o attempt, o.unauthorises request = false := by
  intro request hrequest
  rcases List.mem_append.mp hrequest with hrequest | hrequest
  · exact not_unauthorises_asked hrequest
  · split at hrequest
    · rename_i token htoken
      rw [List.mem_singleton.mp hrequest]
      exact Bool.eq_false_iff.mpr fun hdata => h ⟨token, htoken, hdata⟩
    · cases hrequest

theorem FailsFor.authorised (h : c.FailsFor o maxAttempts first count) :
    ∀ request ∈ c.sentFor o first count, o.unauthorises request = false := by
  induction count with
  | zero => exact fun request hrequest => absurd hrequest List.not_mem_nil
  | succ count ih =>
      intro request hrequest
      rcases List.mem_append.mp hrequest with hrequest | hrequest
      · exact ih (fun n hn => h n (Nat.lt_succ_of_lt hn)) request hrequest
      · have hlast := (h count (Nat.lt_succ_self count)).1
        exact authorised_of_not (FailsHere.not_unauthorised hlast) request hrequest

theorem FailsFor.failed (h : c.FailsFor o maxAttempts first count) (hn : n < count) :
    o.FailedTransiently (c.sentFor o first count) (first + n) := by
  have hlast : (c.held o first n).sent o (first + n) ⊆ c.sentFor o first (n + 1) :=
    List.subset_append_right _ _
  exact FailedTransiently.mono (List.Subset.trans hlast (sentFor_mono hn).subset)
    (FailsHere.failed (h n hn).1)

/-! ### After a 401 -/

/-- A client without a token that is issued one sends it at once. -/
theorem sent_of_issues (hnone : c.token = none) {token : String} (h : o.Issues attempt token) :
    ∃ token, c.sent o attempt = [.token attempt, .data attempt token] ∧ o.Issues attempt token := by
  unfold RteClient.sent
  cases hresult : (c.bearer o attempt).1 with
  | error error => exact absurd h ((bearer_error hresult).2.1 token)
  | ok token' =>
      rcases bearer_ok hresult with ⟨hcached, -⟩ | ⟨hasked, hissues, -⟩
      · rw [hnone] at hcached
        cases hcached
      · rw [hasked]
        exact ⟨token', rfl, hissues⟩

/-- While none is issued, the client stays as it is. -/
theorem held_of_not_issued (hfails : c.FailsFor o maxAttempts first count)
    (h : ∀ m < count, ∀ token, ¬ o.Issues (first + m) token) : c.held o first count = c := by
  induction count with
  | zero => rfl
  | succ count ih =>
      have hheld := ih (fun n hn => hfails n (Nat.lt_succ_of_lt hn))
        fun m hm => h m (Nat.lt_succ_of_lt hm)
      have hlast := hfails count (Nat.lt_succ_self count)
      rw [RteClient.held, hheld]
      rw [hheld] at hlast
      cases hresult : (c.bearer o (first + count)).1 with
      | ok token =>
          rcases bearer_ok hresult with ⟨-, -, hsame⟩ | ⟨-, hissues, -⟩
          · exact hsame
          · exact absurd hissues (h count (Nat.lt_succ_self count) token)
      | error error =>
          exact ((bearer_error hresult).2.2.1 (FailsHere.kind hlast.1 hresult)).2

/-- It sends one more request, with a token issued for it, exactly when one is
issued in time. -/
theorem renewed_iff (hnone : c.token = none) (hfails : c.FailsFor o maxAttempts first n) :
    o.Renewed (c.sentFor o first (n + 1)) ↔ ∃ m ≤ n, ∃ token, o.Issues (first + m) token := by
  constructor
  · rintro ⟨waited, attempt, token, rest, heq, hissues⟩
    have hmem : .token attempt ∈ c.sentFor o first (n + 1) := by
      rw [heq]
      simp
    rcases attempt_of_mem_sentFor hmem with ⟨hle, hlt⟩
    have hle : first ≤ attempt := hle
    have hlt : attempt < first + (n + 1) := hlt
    refine ⟨attempt - first, by omega, token, ?_⟩
    rw [Nat.add_sub_cancel' hle]
    exact hissues
  · intro hsome
    -- the first of them is asked for, since nothing is cached before it
    classical
    have hleast := Nat.find_spec hsome
    have hbefore : ∀ m < Nat.find hsome, ∀ token, ¬ o.Issues (first + m) token :=
      fun m hm token hissues => Nat.find_min hsome hm
        ⟨hm.le.trans hleast.1, token, hissues⟩
    generalize Nat.find hsome = m at hleast hbefore
    rcases hleast with ⟨hm, token, hissues⟩
    have hheld := held_of_not_issued (fun k hk => hfails k (hk.trans_le hm)) hbefore
    rcases sent_of_issues hnone hissues with ⟨token, hsent, hissues⟩
    rcases @sentFor_mono o c first (m + 1) (n + 1) (Nat.succ_le_succ hm) with ⟨rest, hrest⟩
    refine ⟨c.sentFor o first m, first + m, token, rest, ?_, hissues⟩
    rw [← hrest, RteClient.sentFor, hheld, hsent, List.append_assoc]
    rfl

/-- A token held after it was issued after it. -/
theorem held_token (hnone : c.token = none) (hfails : c.FailsFor o maxAttempts first count)
    {token : String} (h : (c.held o first count).token = some token) :
    ∃ m, .token m ∈ c.sentFor o first count ∧ o.Issues m token := by
  induction count with
  | zero =>
      rw [RteClient.held, hnone] at h
      cases h
  | succ count ih =>
      have hbefore : (c.held o first count).token = some token →
          ∃ m, .token m ∈ c.sentFor o first (count + 1) ∧ o.Issues m token := by
        intro hheld
        rcases ih (fun n hn => hfails n (Nat.lt_succ_of_lt hn)) hheld with ⟨m, hmem, hissues⟩
        exact ⟨m, List.mem_append_left _ hmem, hissues⟩
      have hlast := hfails count (Nat.lt_succ_self count)
      rw [RteClient.held] at h
      cases hresult : ((c.held o first count).bearer o (first + count)).1 with
      | ok issued =>
          rcases bearer_ok hresult with ⟨-, -, hsame⟩ | ⟨hasked, hissues, htoken⟩
          · rw [hsame] at h
            exact hbefore h
          · rw [htoken] at h
            cases h
            refine ⟨first + count, List.mem_append_right _ (List.mem_append_left _ ?_), hissues⟩
            rw [hasked]
            exact List.mem_singleton_self _
      | error error =>
          rw [((bearer_error hresult).2.2.1 (FailsHere.kind hlast.1 hresult)).2] at h
          exact hbefore h

/-! ### Every end of the call -/

section Ends

theorem dropWhile_authorised {calls : List Request}
    (h : ∀ request ∈ calls, o.unauthorises request = false) :
    calls.dropWhile (fun request => !o.unauthorises request) = [] :=
  List.dropWhile_eq_nil_iff.mpr fun request hrequest => by rw [h request hrequest]; rfl

/-- The attempts up to the first that does not fail, and on from there. -/
theorem attempts_step (hn : n < count) (h : s.client.FailsFor o maxAttempts first n) :
    s.attempts o maxAttempts first count =
      (⟨s.client.held o first n, s.refreshed, s.calls ++ s.client.sentFor o first n⟩ :
        Fetching).attempt o maxAttempts (first + n) >>= fun s' =>
          s'.attempts o maxAttempts (first + n + 1) (count - (n + 1)) := by
  have hsplit : count = n + (1 + (count - (n + 1))) := by omega
  rw [hsplit, attempts_append, attempts_of_fails h]
  show Fetching.attempts o maxAttempts (first + n) (1 + (count - (n + 1))) _ = _
  rw [attempts_append, ← hsplit]
  unfold Fetching.attempts
  rw [List.range'_one, List.foldlM_cons]
  cases Fetching.attempt o maxAttempts _ (first + n) <;> rfl

/-- Only the first attempt that does not fail decides. -/
theorem spendsWell_iff (hn : n < maxAttempts) (hfails : c.FailsFor o maxAttempts 1 n)
    (hfirst : ¬ (c.held o 1 n).Fails o maxAttempts (1 + n)) : c.SpendsWell o maxAttempts ↔
      ((c.held o 1 n).TurnedAway o (1 + n) → 1 + n = maxAttempts ∧ (o.token (1 + n)).Transient) ∧
      ((c.held o 1 n).Unauthorised o (1 + n) →
        (c.held o 1 (n + 1)).forgetful.Recovers o maxAttempts (1 + n + 1)
          (maxAttempts - (n + 1))) := by
  constructor
  · intro h
    exact h n hn hfails
  · intro h m hm hbefore
    rcases Nat.lt_trichotomy m n with hlt | rfl | hlt
    · have hfail := hfails m hlt
      exact ⟨fun haway => absurd haway (FailsHere.not_turnedAway hfail.1),
        fun hrefused => absurd hrefused (FailsHere.not_unauthorised hfail.1)⟩
    · exact h
    · exact absurd (hbefore n hlt) hfirst

/-- The attempts are used up. -/
theorem spent_exhausted (hfails : c.FailsFor o maxAttempts 1 maxAttempts) :
    o.Spent maxAttempts (c.fetch o maxAttempts) ∧ c.SpendsWell o maxAttempts := by
  constructor
  · have hfetch : c.fetch o maxAttempts = (raise .RteUnavailable
        [.text "giving up after ", .int maxAttempts, .text " attempts"],
        ⟨c.held o 1 maxAttempts, false, c.sentFor o 1 maxAttempts⟩) := by
      unfold RteClient.fetch
      rw [attempts_of_fails hfails]
      rfl
    rw [hfetch]
    refine ⟨?_, ?_, ?_, ?_⟩
    · exact (length_data_sentFor).trans (Nat.le_succ _)
    · intro refused after hdrop
      rw [dropWhile_authorised (FailsFor.authorised hfails)] at hdrop
      cases hdrop
    · rintro error ⟨⟩ hkind
      cases hkind
    · rintro error ⟨⟩ - attempt hone hmax
      have hfailed := FailsFor.failed hfails (show attempt - 1 < maxAttempts by omega)
      rw [Nat.add_sub_cancel' hone] at hfailed
      exact hfailed
  · intro n hn _
    have hfail := hfails n hn
    exact ⟨fun haway => absurd haway (FailsHere.not_turnedAway hfail.1),
      fun hrefused => absurd hrefused (FailsHere.not_unauthorised hfail.1)⟩

/-- An attempt that was turned away failed in a way that may clear exactly if
the token endpoint did. -/
theorem failedTransiently_turnedAway (haway : (c.held o first n).TurnedAway o (first + n)) :
    o.FailedTransiently (c.sentFor o first (n + 1)) (first + n) ↔
      (o.token (first + n)).Transient := by
  rcases haway with ⟨error, herror, -⟩
  have hsent : (c.held o first n).sent o (first + n) = [.token (first + n)] := by
    unfold RteClient.sent
    rw [herror, (bearer_error herror).1]
    rfl
  constructor
  · rintro (⟨-, htransient⟩ | ⟨token, hmem, -⟩)
    · exact htransient
    · exfalso
      rcases List.mem_append.mp hmem with hmem | hmem
      · have hlt : first + n < first + n := (attempt_of_mem_sentFor hmem).2
        omega
      · rw [hsent] at hmem
        simp at hmem
  · intro htransient
    refine Or.inl ⟨List.mem_append_right _ ?_, htransient⟩
    rw [hsent]
    exact List.mem_singleton_self _

/-- A first attempt that ends the call without a 401. -/
theorem spent_ended (hn : n < maxAttempts) (hfails : c.FailsFor o maxAttempts 1 n)
    (hfirst : ¬ (c.held o 1 n).Fails o maxAttempts (1 + n))
    (hauthorised : ¬ (c.held o 1 n).Unauthorised o (1 + n)) :
    o.Spent maxAttempts (c.fetch o maxAttempts) ↔ c.SpendsWell o maxAttempts := by
  rcases attempt_of_ends (s := ⟨c.held o 1 n, false, c.sentFor o 1 n⟩) hfirst hauthorised with
    ⟨result, hattempt, hturned, hrejects⟩
  have hfetch : c.fetch o maxAttempts = (result, ⟨c.held o 1 (n + 1), false,
      c.sentFor o 1 (n + 1)⟩) := by
    unfold RteClient.fetch
    rw [attempts_step (s := ⟨c, false, []⟩) hn hfails, List.nil_append, hattempt]
    rfl
  rw [hfetch, spendsWell_iff hn hfails hfirst, and_iff_left (fun h => absurd h hauthorised)]
  have hall : ∀ request ∈ c.sentFor o 1 (n + 1), o.unauthorises request = false := by
    intro request hrequest
    rcases List.mem_append.mp hrequest with hrequest | hrequest
    · exact FailsFor.authorised hfails request hrequest
    · exact authorised_of_not hauthorised request hrequest
  constructor
  · rintro ⟨-, -, -, hunavailable⟩ haway
    rcases hturned.mpr haway with ⟨error, rfl, hkind⟩
    have hfailed := hunavailable error rfl hkind
    refine ⟨?_, (failedTransiently_turnedAway haway).mp (hfailed (1 + n) (by omega) (by omega))⟩
    -- there is no attempt after this one
    by_contra hmore
    rcases hfailed (1 + n + 1) (by omega) (by omega) with ⟨hmem, -⟩ | ⟨token, hmem, -⟩
    · have hlt : 1 + n + 1 < 1 + (n + 1) := (attempt_of_mem_sentFor hmem).2
      omega
    · have hlt : 1 + n + 1 < 1 + (n + 1) := (attempt_of_mem_sentFor hmem).2
      omega
  · intro h
    refine ⟨?_, ?_, ?_, ?_⟩
    · exact (length_data_sentFor).trans (by omega)
    · intro refused after hdrop
      rw [dropWhile_authorised hall] at hdrop
      cases hdrop
    · intro error herror hkind
      rcases hrejects error herror hkind with ⟨hmem, hreject⟩
      exact Or.inl ⟨1 + n, List.mem_append_right _ hmem, hreject⟩
    · intro error herror hkind attempt hone hmax
      have haway := hturned.mp ⟨error, herror, hkind⟩
      rcases h haway with ⟨hlast, htransient⟩
      rcases Nat.lt_or_ge attempt (1 + n) with hlt | hge
      · have hfailed := FailsFor.failed hfails (show attempt - 1 < n by omega)
        rw [Nat.add_sub_cancel' hone] at hfailed
        exact FailedTransiently.mono (List.subset_append_left _ _) hfailed
      · have heq : attempt = 1 + n := by omega
        rw [heq]
        exact (failedTransiently_turnedAway haway).mpr htransient

/-- The requests up to a first 401. -/
theorem sentFor_unauthorised (hfails : c.FailsFor o maxAttempts 1 n)
    (hrefused : (c.held o 1 n).Unauthorised o (1 + n)) : ∃ before token,
      c.sentFor o 1 (n + 1) = before ++ [.data (1 + n) token] ∧
        o.unauthorises (.data (1 + n) token) = true ∧
        ∀ request ∈ before, o.unauthorises request = false := by
  rcases hrefused with ⟨token, htoken, hdata⟩
  refine ⟨c.sentFor o 1 n ++ (c.held o 1 n).asked o (1 + n), token, ?_, hdata, ?_⟩
  · rw [RteClient.sentFor, List.append_assoc]
    unfold RteClient.sent
    rw [htoken]
  · intro request hrequest
    rcases List.mem_append.mp hrequest with hrequest | hrequest
    · exact FailsFor.authorised hfails request hrequest
    · exact not_unauthorises_asked hrequest

/-- An attempt that was answered 401 did not fail in a way that may clear. -/
theorem not_failedTransiently_unauthorised {later : List Request}
    (hlater : ∀ request ∈ later, 1 + n < request.attempt)
    (hrefused : (c.held o 1 n).Unauthorised o (1 + n)) :
    ¬ o.FailedTransiently (c.sentFor o 1 (n + 1) ++ later) (1 + n) := by
  rcases hrefused with ⟨token, htoken, hdata⟩
  rintro (⟨hmem, htransient⟩ | ⟨-, -, htransient⟩)
  · -- the token endpoint was asked in this attempt, and issued a token
    have hasked : .token (1 + n) ∈ (c.held o 1 n).asked o (1 + n) := by
      rcases List.mem_append.mp hmem with hmem | hmem
      · rcases List.mem_append.mp hmem with hmem | hmem
        · have hlt : 1 + n < 1 + n := (attempt_of_mem_sentFor hmem).2
          omega
        · unfold RteClient.sent at hmem
          rw [htoken] at hmem
          simpa using hmem
      · exact absurd (hlater _ hmem) (Nat.lt_irrefl _)
    rcases bearer_ok htoken with ⟨-, hnone, -⟩ | ⟨-, ⟨json, payload, expiresAt, hanswer, -⟩, -⟩
    · rw [hnone] at hasked
      cases hasked
    · rw [hanswer] at htransient
      have hstatus : (500 : Int) ≤ 200 := htransient
      omega
  · rw [not_unauthorised_of_transient htransient] at hdata
    cases hdata

/-- The call goes on after a first 401. -/
theorem attempts_unauthorised (hn : n < maxAttempts) (hfails : c.FailsFor o maxAttempts 1 n)
    (hrefused : (c.held o 1 n).Unauthorised o (1 + n)) :
    (⟨c, false, []⟩ : Fetching).attempts o maxAttempts 1 maxAttempts =
      (⟨(c.held o 1 (n + 1)).forgetful, true, c.sentFor o 1 (n + 1)⟩ : Fetching).attempts o maxAttempts
        (1 + n + 1) (maxAttempts - (n + 1)) := by
  rw [attempts_step (s := ⟨c, false, []⟩) hn hfails, List.nil_append,
    attempt_of_unauthorised (s := ⟨c.held o 1 n, false, c.sentFor o 1 n⟩) hrefused]
  rfl

/-- A token is asked for and then sent with a last request, both answered; the
401 that ends the call is to a token issued after the first. -/
theorem stillUnauthorised (hfails : c.FailsFor o maxAttempts 1 n)
    (hrefused : (c.held o 1 n).Unauthorised o (1 + n)) {c' : RteClient} {m : Nat}
    (hnone : c'.token = none) (hfails' : c'.FailsFor o maxAttempts first m)
    (hrefused' : (c'.held o first m).Unauthorised o (first + m)) :
    o.StillUnauthorised (c.sentFor o 1 (n + 1) ++ c'.sentFor o first (m + 1)) := by
  rcases sentFor_unauthorised hfails hrefused with ⟨before, token, hsent, hfirst, -⟩
  rcases hrefused' with ⟨last, hlast, hdata⟩
  have hend : c'.sentFor o first (m + 1) = c'.sentFor o first m ++
      (c'.held o first m).asked o (first + m) ++ [.data (first + m) last] := by
    rw [RteClient.sentFor, List.append_assoc]
    unfold RteClient.sent
    rw [hlast]
  have hissued : ∃ k, .token k ∈ c'.sentFor o first m ++ (c'.held o first m).asked o (first + m) ∧
      o.Issues k last := by
    rcases bearer_ok hlast with ⟨hheld, -⟩ | ⟨hasked, hissues, -⟩
    · rcases held_token hnone hfails' hheld with ⟨k, hmem, hissues⟩
      exact ⟨k, List.mem_append_left _ hmem, hissues⟩
    · refine ⟨first + m, List.mem_append_right _ ?_, hissues⟩
      rw [hasked]
      exact List.mem_singleton_self _
  rcases hissued with ⟨k, hmem, hissues⟩
  rcases List.append_of_mem hmem with ⟨between, issued, hsplit⟩
  refine ⟨before, .data (1 + n) token, between, k, issued, first + m, last, ?_, hfirst, hissues,
    hdata⟩
  rw [hsent, hend, hsplit]
  simp

/-- What follows the first 401 is the rest of the requests. -/
theorem dropWhile_unauthorised (hfails : c.FailsFor o maxAttempts 1 n)
    (hrefused : (c.held o 1 n).Unauthorised o (1 + n)) : ∃ token, ∀ later : List Request,
      (c.sentFor o 1 (n + 1) ++ later).dropWhile (fun request => !o.unauthorises request) =
        .data (1 + n) token :: later := by
  rcases sentFor_unauthorised hfails hrefused with ⟨before, token, hsent, hfirst, hbefore⟩
  refine ⟨token, fun later => ?_⟩
  rw [hsent, List.append_assoc, List.dropWhile_append_of_pos
    (fun request hrequest => by rw [hbefore request hrequest]; rfl)]
  show List.dropWhile _ (.data (1 + n) token :: later) = _
  rw [List.dropWhile_cons_of_neg (by rw [hfirst]; simp)]

/-- No end of the call after a 401 is one of `max_attempts` failures. -/
theorem not_transient_throughout (hn : n < maxAttempts)
    (hrefused : (c.held o 1 n).Unauthorised o (1 + n)) {c' : RteClient} :
    ¬ ∀ attempt, 1 ≤ attempt → attempt ≤ maxAttempts → o.FailedTransiently
      (c.sentFor o 1 (n + 1) ++ c'.sentFor o (1 + n + 1) count) attempt := by
  intro h
  have hlater : ∀ request ∈ c'.sentFor o (1 + n + 1) count, 1 + n < request.attempt :=
    fun request hrequest => (attempt_of_mem_sentFor hrequest).1
  exact not_failedTransiently_unauthorised hlater hrefused (h (1 + n) (by omega) (by omega))

theorem length_data_both {c' : RteClient} {m : Nat} : ((c.sentFor o 1 n ++
    c'.sentFor o first m).filter Request.isData).length ≤ n + m := by
  have hone := @length_data_sentFor o c 1 n
  have htwo := @length_data_sentFor o c' first m
  rw [List.filter_append, List.length_append]
  omega

/-- Only the first attempt that does not fail decides here too. -/
theorem recovers_iff (hnone : c.token = none) {m : Nat} (hm : m < count)
    (hfails : c.FailsFor o maxAttempts first m)
    (hfirst : ¬ (c.held o first m).Fails o maxAttempts (first + m)) :
    c.Recovers o maxAttempts first count ↔ ¬ (c.held o first m).TurnedAway o (first + m) ∧
      o.Renewed (c.sentFor o first (m + 1)) := by
  rw [renewed_iff hnone hfails]
  constructor
  · rintro ⟨m', -, hbefore, hends, haway, hissued⟩
    cases FailsFor.first_unique hbefore hends hfails hfirst
    exact ⟨haway, hissued⟩
  · rintro ⟨haway, hissued⟩
    exact ⟨m, hm, hfails, hfirst, haway, hissued⟩

/-- A token that is there was not turned away. -/
theorem Unauthorised.not_turnedAway (h : c.Unauthorised o attempt) : ¬ c.TurnedAway o attempt := by
  rintro ⟨error, herror, -⟩
  rcases h with ⟨token, htoken, -⟩
  cases herror.symm.trans htoken

/-- A first 401. -/
theorem spent_unauthorised (hn : n < maxAttempts) (hfails : c.FailsFor o maxAttempts 1 n)
    (hrefused : (c.held o 1 n).Unauthorised o (1 + n)) :
    o.Spent maxAttempts (c.fetch o maxAttempts) ↔ c.SpendsWell o maxAttempts := by
  have hfirst : ¬ (c.held o 1 n).Fails o maxAttempts (1 + n) :=
    fun h => FailsHere.not_unauthorised h.1 hrefused
  have hhere := Unauthorised.not_turnedAway hrefused
  rw [spendsWell_iff hn hfails hfirst, and_iff_right (fun h => absurd h hhere),
    forall_prop_of_true hrefused]
  unfold RteClient.fetch
  rw [attempts_unauthorised hn hfails hrefused]
  rcases dropWhile_unauthorised hfails hrefused with ⟨token, hdrop⟩
  have hnone : (c.held o 1 (n + 1)).forgetful.token = none := rfl
  generalize (c.held o 1 (n + 1)).forgetful = c' at hnone
  have hnot : ∀ {count : Nat}, ¬ ∀ attempt, 1 ≤ attempt → attempt ≤ maxAttempts →
      o.FailedTransiently (c.sentFor o 1 (n + 1) ++ c'.sentFor o (1 + n + 1) count) attempt :=
    not_transient_throughout hn hrefused
  rcases failsFor_or_first o (1 + n + 1) (maxAttempts - (n + 1)) c' with
    hall | ⟨m, hm, hfails', hfirst'⟩
  · -- used up
    rw [attempts_of_fails (s := ⟨c', true, c.sentFor o 1 (n + 1)⟩) hall]
    refine iff_of_false (fun hspent => hnot (hspent.unavailable _ rfl rfl)) ?_
    rintro ⟨m, hm, -, hends, -⟩
    exact hends (hall m hm)
  · rw [attempts_step (s := ⟨c', true, c.sentFor o 1 (n + 1)⟩) hm hfails',
      recovers_iff hnone hm hfails' hfirst']
    have hlength := @length_data_both o c (1 + n + 1) (n + 1) c' (m + 1)
    by_cases hagain : (c'.held o (1 + n + 1) m).Unauthorised o (1 + n + 1 + m)
    · -- believed
      rw [attempt_of_unauthorised (s := ⟨c'.held o (1 + n + 1) m, true, _⟩) hagain, if_pos rfl]
      have hstill := stillUnauthorised hfails hrefused hnone hfails' hagain
      rw [and_iff_right (Unauthorised.not_turnedAway hagain)]
      show o.Spent maxAttempts (_, ⟨_, _, _⟩) ↔ _
      rw [List.append_assoc]
      constructor
      · intro hspent
        exact hspent.retried _ _ (hdrop _)
      · intro hrenewed
        refine ⟨hlength.trans (by omega), ?_, fun _ _ _ => Or.inr hstill, ?_⟩
        · intro refused after heq
          rw [show _ = _ from hdrop _] at heq
          cases heq
          exact hrenewed
        · rintro error ⟨⟩ hkind
          cases hkind
    · rcases attempt_of_ends (s := ⟨c'.held o (1 + n + 1) m, true, c.sentFor o 1 (n + 1) ++
        c'.sentFor o (1 + n + 1) m⟩) hfirst' hagain with ⟨result, hattempt, hturned, hrejects⟩
      rw [hattempt]
      show o.Spent maxAttempts (result, ⟨_, _, _⟩) ↔ _
      rw [List.append_assoc]
      constructor
      · intro hspent
        refine ⟨fun haway => ?_, hspent.retried _ _ (hdrop _)⟩
        rcases hturned.mpr haway with ⟨error, herror, hkind⟩
        exact @hnot (m + 1) (hspent.unavailable error herror hkind)
      · rintro ⟨haway, hrenewed⟩
        refine ⟨hlength.trans (by omega), ?_, ?_, ?_⟩
        · intro refused after heq
          rw [show _ = _ from hdrop _] at heq
          cases heq
          exact hrenewed
        · intro error herror hkind
          rcases hrejects error herror hkind with ⟨hmem, hreject⟩
          exact Or.inl ⟨_, List.mem_append_right _ (List.mem_append_right _ hmem), hreject⟩
        · intro error herror hkind
          exact absurd (hturned.mp ⟨error, herror, hkind⟩) haway

end Ends

end Attempts

theorem lateReading_inRange : WallInRange 63923428800000000 := by decide

/-- Down three times, and then the cached token has died. -/
def lateRefusal : Endpoints where
  data attempt := .response (if attempt ≤ 3 then 503 else 401) [] none
  token _ := .transport
  checked _ := ⟨63923428800000000, lateReading_inRange⟩
  issued _ := ⟨63923428800000000, lateReading_inRange⟩
  fetched _ := ⟨63923428800000000, lateReading_inRange⟩
  lifetime _ := raise .ValueError []
  lifetime_raises := by
    rintro _ _ ⟨⟩
    exact Or.inl rfl
  seconds _ := none

theorem renewalAt_inRange : WallInRange 63923432400000000 := by decide

/-- A client whose token is good for another hour. -/
def cachedClient : RteClient := ⟨some "tok", ⟨63923432400000000, renewalAt_inRange⟩, 1⟩

end Gridlens
