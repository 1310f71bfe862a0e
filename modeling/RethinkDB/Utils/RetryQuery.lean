import Mathlib.Data.Int.Basic
import Mathlib.Data.Int.Notation

/-! The retry loop of `RetryQuery` over its per-process connection cache. -/
namespace RethinkDB.Utils

/-- The connection the cache holds when the call starts, or the one an attempt opened. -/
inductive Conn where
  | cached
  | opened (attempt : ℕ)
  deriving Repr, DecidableEq

/-- What running a query comes to: a timeout or driver error is a failed connection. -/
inductive Run (V : Type) where
  | result (value : V)
  | failed (text : String)
  | other (text : String)
  deriving Repr, DecidableEq

/-- What the attempts meet: the error opening a connection raises, whether `expr(0)` still
runs on a connection, and what the query comes to on it. -/
structure Schedule (V : Type) where
  opens : ℕ → Option String
  probe : ℕ → Conn → Bool
  run : ℕ → Conn → Run V

inductive Raised where
  | assertionError (message : String)
  | valueError (message : String)
  | runtimeError (message : String)
  | unboundLocalError (name : String)
  | query (text : String)
  deriving Repr, DecidableEq

/-- The locals of the loop, and the cache entry of this process. -/
structure Frame where
  connCache : Option Conn
  conn : Option Conn := none
  lastError : Option String := none
  testConnection : Bool := false
  deriving Repr, DecidableEq

variable {V : Type}

namespace RetryQuery

def connectError (name text : String) : String :=
  "Error connecting for during '" ++ name ++ "': " ++ text

def connectionError (name text : String) : String :=
  "Connection error during '" ++ name ++ "': " ++ text

/-- `conn`: the cached connection, tested only on demand, or a new one that is then cached. -/
def conn (S : Schedule V) (attempt : ℕ) (testConnection : Bool) (connCache : Option Conn) :
    Except String Conn × Option Conn :=
  let connCache := connCache.filter fun c => !testConnection || S.probe attempt c
  match connCache, S.opens attempt with
  | some c, _ => (.ok c, some c)
  | none, none => (.ok (.opened attempt), some (.opened attempt))
  | none, some text => (.error text, none)

/-- The first `try` of an attempt; after its handler the attempt goes on. -/
def connect (S : Schedule V) (name : String) (attempt : ℕ) (f : Frame) : Frame :=
  match conn S attempt f.testConnection f.connCache with
  | (.ok c, connCache) => { f with connCache := connCache, conn := some c }
  | (.error text, connCache) =>
    { f with
      connCache := connCache
      lastError := some (connectError name text)
      testConnection := true }

/-- `for _ in range(times)`, from some attempt on, and what follows the loop. -/
def attempts (S : Schedule V) (name : String) : ℕ → ℕ → Frame → Except Raised (Option V) × Frame
  | 0, _, f =>
    match f.lastError with
    | some message => (.error (.runtimeError message), f)
    | none => (.ok none, f)
  | n + 1, attempt, f =>
    let f := connect S name attempt f
    match f.conn with
    | none => (.error (.unboundLocalError "conn"), f)
    | some c =>
      match S.run attempt c with
      | .result v => (.ok (some v), f)
      | .failed text =>
        attempts S name n (attempt + 1) { f with lastError := some (connectionError name text) }
      | .other text => (.error (.query text), f)

/-- `__call__`, whose parameter `test_connection` is overwritten before its first use. -/
def call (S : Schedule V) (connCache : Option Conn) (name : Option String) (times : ℤ) :
    Except Raised (Option V) × Option Conn :=
  match name with
  | none => (.error (.assertionError "Name can not be none"), connCache)
  | some name =>
    if times < 1 then
      (.error (.valueError ("Times must be a positive integer instead of " ++ toString times)),
        connCache)
    else
      let (res, f) := attempts S name times.toNat 0 { connCache := connCache }
      (res, f.connCache)

end RetryQuery

/-! ### What a call owes its caller -/

namespace Schedule
variable (S : Schedule V)

/-- From this attempt to the last one a new connection opens and runs the query. -/
def ReachableFrom (k : ℕ) (times : ℤ) : Prop :=
  ∀ i : ℕ, k ≤ i → (i : ℤ) < times → S.opens i = none ∧ ∃ v, S.run i (.opened i) = .result v

def Returns (times : ℤ) (res : Except Raised (Option V)) : Prop :=
  ∃ (i : ℕ) (c : Conn) (v : V), (i : ℤ) < times ∧ S.run i c = .result v ∧ res = .ok (some v)

/-- An error other than a connection failure bubbled up from the query. -/
def Bubbles (times : ℤ) (res : Except Raised (Option V)) : Prop :=
  ∃ (i : ℕ) (c : Conn) (text : String),
    (i : ℤ) < times ∧ S.run i c = .other text ∧ res = .error (.query text)

/-- The error is the `RuntimeError` for the failure of the last attempt. -/
def DescribesLast (name : String) (times : ℤ) (e : Raised) : Prop :=
  ∃ (i : ℕ) (text : String), (i : ℤ) + 1 = times ∧
    (S.opens i = some text ∧ e = .runtimeError (RetryQuery.connectError name text) ∨
      ∃ c, S.run i c = .failed text ∧ e = .runtimeError (RetryQuery.connectionError name text))

/-- A call that really retries: with an attempt to spare once the server is reachable, it
gets through to the query; when it fails on connections alone, it says how. -/
structure Retries (connCache : Option Conn) (name : String) (times : ℤ) : Prop where
  returns : ∀ k : ℕ, (k : ℤ) + 1 < times → S.ReachableFrom k times →
    S.Returns times (RetryQuery.call S connCache (some name) times).1 ∨
      S.Bubbles times (RetryQuery.call S connCache (some name) times).1
  raises : ∀ e, (RetryQuery.call S connCache (some name) times).1 = .error e →
    S.DescribesLast name times e ∨
      S.Bubbles times (RetryQuery.call S connCache (some name) times).1

/-- When it does: there is a connection from the first attempt on, and it is not the one
that fails at every attempt while the server is reachable at the last two. -/
structure Steady (connCache : Option Conn) (times : ℤ) : Prop where
  connected : connCache = none → S.opens 0 = none
  lasting : ∀ k : ℕ, (k : ℤ) + 2 = times → S.ReachableFrom k times →
    ∃ i : ℕ, (i : ℤ) < times ∧ ∀ text, S.run i (connCache.getD (.opened 0)) ≠ .failed text

end Schedule

namespace RetryQuery
variable {S : Schedule V} {name : String}

/-- What the attempts on one connection come to. -/
inductive Follows (S : Schedule V) (name : String) (c : Conn) (n i : ℕ) :
    Except Raised (Option V) → Prop
  | result {j : ℕ} {v : V} : i ≤ j → j < i + n → S.run j c = .result v →
      Follows S name c n i (.ok (some v))
  | other {j : ℕ} {text : String} : i ≤ j → j < i + n → S.run j c = .other text →
      Follows S name c n i (.error (.query text))
  | failed {text : String} : (∀ j, i ≤ j → j < i + n → ∃ text, S.run j c = .failed text) →
      S.run (i + n - 1) c = .failed text →
      Follows S name c n i (.error (.runtimeError (connectionError name text)))

theorem Follows.step {c : Conn} {n i : ℕ} {text : String} (hrun : S.run i c = .failed text)
    {res : Except Raised (Option V)} (h : Follows S name c n (i + 1) res) :
    Follows S name c (n + 1) i res := by
  cases h with
  | result hij hj hv => exact .result (by omega) (by omega) hv
  | other hij hj ho => exact .other (by omega) (by omega) ho
  | failed hall hlast =>
    constructor
    · intro j hij hj
      by_cases hji : j = i
      · rw [hji]
        exact ⟨text, hrun⟩
      · exact hall j (by omega) (by omega)
    · have hsame : i + (n + 1) - 1 = i + 1 + n - 1 := by omega
      rwa [hsame]

/-- An untested connection in the cache is handed out as it is. -/
theorem connect_cached {f : Frame} {c : Conn} (hcache : f.connCache = some c)
    (htest : f.testConnection = false) (attempt : ℕ) :
    connect S name attempt f = { f with connCache := some c, conn := some c } := by
  unfold connect conn
  rw [hcache, htest]
  rfl

/-- With nothing in the cache a new connection is opened, and then it is as if the cache had
held that one. -/
theorem connect_opened {f : Frame} {attempt : ℕ} (hcache : f.connCache = none)
    (hopen : S.opens attempt = none) : connect S name attempt f =
      { f with connCache := some (.opened attempt), conn := some (.opened attempt) } := by
  unfold connect conn
  rw [hcache, hopen]
  rfl

/-- What one attempt does with the connection the cache holds. -/
theorem attempts_succ {c : Conn} {f : Frame} (hcache : f.connCache = some c)
    (htest : f.testConnection = false) (n i : ℕ) :
    attempts S name (n + 1) i f =
      match S.run i c with
      | .result v => (.ok (some v), { f with connCache := some c, conn := some c })
      | .failed text => attempts S name n (i + 1) { f with
          connCache := some c, conn := some c, lastError := some (connectionError name text) }
      | .other text => (.error (.query text), { f with connCache := some c, conn := some c }) := by
  rw [attempts, connect_cached hcache htest]

/-- With a connection in the cache every attempt uses that one, and it stays there. -/
theorem attempts_cached {c : Conn} (n i : ℕ) {f : Frame} (hcache : f.connCache = some c)
    (htest : f.testConnection = false) :
    Follows S name c (n + 1) i (attempts S name (n + 1) i f).1 ∧
      (attempts S name (n + 1) i f).2.connCache = some c := by
  induction n generalizing i f with
  | zero =>
    rw [attempts_succ hcache htest]
    cases hrun : S.run i c with
    | result v => exact ⟨.result le_rfl (by omega) hrun, rfl⟩
    | other text => exact ⟨.other le_rfl (by omega) hrun, rfl⟩
    | failed text =>
      refine ⟨.failed (fun j hij hj => ?_) hrun, rfl⟩
      have hji : j = i := by omega
      rw [hji]
      exact ⟨text, hrun⟩
  | succ n ih =>
    rw [attempts_succ hcache htest]
    cases hrun : S.run i c with
    | result v => exact ⟨.result le_rfl (by omega) hrun, rfl⟩
    | other text => exact ⟨.other le_rfl (by omega) hrun, rfl⟩
    | failed text =>
      have hrest := ih (i + 1)
        (f := { f with
          connCache := some c, conn := some c, lastError := some (connectionError name text) })
        rfl htest
      exact ⟨hrest.1.step hrun, hrest.2⟩

/-- The connection a call works with, if it gets one at all. -/
theorem call_follows {connCache : Option Conn} {times : ℤ} (htimes : 1 ≤ times)
    (hconn : connCache = none → S.opens 0 = none) :
    Follows S name (connCache.getD (.opened 0)) times.toNat 0
        (call S connCache (some name) times).1 ∧
      (call S connCache (some name) times).2 = some (connCache.getD (.opened 0)) := by
  obtain ⟨n, hn⟩ : ∃ n : ℕ, times.toNat = n + 1 := ⟨times.toNat - 1, by omega⟩
  have hpos : ¬times < 1 := by omega
  simp only [call, if_neg hpos, hn]
  cases connCache with
  | some c => exact attempts_cached n 0 rfl rfl
  | none =>
    have hsame : attempts S name (n + 1) 0 { connCache := none } =
        attempts S name (n + 1) 0 { connCache := some (.opened 0) } := by
      rw [attempts_succ (f := { connCache := some (.opened 0) }) rfl rfl, attempts,
        connect_opened rfl (hconn rfl)]
    rw [hsame]
    exact attempts_cached n 0 rfl rfl

/-- When the first opening fails there is no connection to run the query on. -/
theorem call_unbound {text : String} (hopen : S.opens 0 = some text) {times : ℤ}
    (htimes : 1 ≤ times) :
    (call S none (some name) times).1 = .error (.unboundLocalError "conn") := by
  obtain ⟨n, hn⟩ : ∃ n : ℕ, times.toNat = n + 1 := ⟨times.toNat - 1, by omega⟩
  have hpos : ¬times < 1 := by omega
  simp [call, hpos, hn, attempts, connect, conn, hopen]

/-- Whatever a call meets, a connection once cached is never replaced. -/
theorem call_keeps_cached {c : Conn} {times : ℤ} :
    (call S (some c) (some name) times).2 = some c := by
  by_cases htimes : times < 1
  · simp [call, htimes]
  · exact (call_follows (by omega) (by simp)).2

end RetryQuery

/-! ### When a call really retries -/

namespace Schedule
variable {S : Schedule V} {connCache : Option Conn} {name : String} {times : ℤ}

theorem Retries.connected (h : S.Retries connCache name times) (htimes : 1 ≤ times)
    (hcache : connCache = none) : S.opens 0 = none := by
  subst hcache
  cases hopen : S.opens 0 with
  | none => rfl
  | some text =>
    have hunbound : (RetryQuery.call S none (some name) times).1 = _ :=
      RetryQuery.call_unbound hopen htimes
    rcases h.raises _ hunbound with ⟨_, _, _, ⟨_, hrun⟩ | ⟨_, _, hrun⟩⟩ | ⟨_, _, _, _, _, hrun⟩
    · cases hrun
    · cases hrun
    · rw [hunbound] at hrun
      cases hrun

theorem Retries.lasting (h : S.Retries connCache name times) (htimes : 1 ≤ times) {k : ℕ}
    (hk : (k : ℤ) + 2 = times) (hreach : S.ReachableFrom k times) :
    ∃ i : ℕ, (i : ℤ) < times ∧ ∀ text, S.run i (connCache.getD (.opened 0)) ≠ .failed text := by
  have hgood := h.returns k (by omega) hreach
  have hcall : RetryQuery.Follows S name _ _ 0 (RetryQuery.call S connCache (some name) times).1 :=
    (RetryQuery.call_follows htimes (h.connected htimes)).1
  generalize (RetryQuery.call S connCache (some name) times).1 = res at hcall hgood
  cases hcall with
  | @result j v _ hj hv => exact ⟨j, by omega, by simp [hv]⟩
  | @other j text _ hj ho => exact ⟨j, by omega, by simp [ho]⟩
  | failed hall hlast =>
    rcases hgood with ⟨_, _, _, _, _, hres⟩ | ⟨_, _, _, _, _, hres⟩ <;> cases hres

theorem ReachableFrom.last {k : ℕ} (hk : (k : ℤ) + 1 < times) (h : S.ReachableFrom k times) :
    ∃ l : ℕ, (l : ℤ) + 2 = times ∧ S.ReachableFrom l times :=
  ⟨times.toNat - 2, by omega, fun i hi => h i (by omega)⟩

theorem Steady.retries (h : S.Steady connCache times) (htimes : 1 ≤ times) :
    S.Retries connCache name times := by
  have hcall : RetryQuery.Follows S name _ _ 0 (RetryQuery.call S connCache (some name) times).1 :=
    (RetryQuery.call_follows htimes h.connected).1
  generalize hres : (RetryQuery.call S connCache (some name) times).1 = res at hcall
  constructor
  · intro k hk hreach
    rw [hres]
    cases hcall with
    | result _ hj hv => exact .inl ⟨_, _, _, by omega, hv, rfl⟩
    | other _ hj ho => exact .inr ⟨_, _, _, by omega, ho, rfl⟩
    | failed hall _ =>
      obtain ⟨l, hl, hreach⟩ := hreach.last hk
      obtain ⟨i, hi, hrun⟩ := h.lasting l hl hreach
      obtain ⟨text, hfailed⟩ := hall i (by omega) (by omega)
      exact absurd hfailed (hrun text)
  · intro e he
    rw [hres] at he ⊢
    subst he
    cases hcall with
    | other _ hj ho => exact .inr ⟨_, _, _, by omega, ho, rfl⟩
    | failed _ hlast => exact .inl ⟨_, _, by omega, .inr ⟨_, hlast, rfl⟩⟩

/-- A call really retries exactly when the one connection it uses is not the one that fails. -/
theorem retries_iff_steady (htimes : 1 ≤ times) :
    S.Retries connCache name times ↔ S.Steady connCache times :=
  ⟨fun h => ⟨h.connected htimes, fun _ => h.lasting htimes⟩, fun h => h.retries htimes⟩

/-- Nothing is cached, and the query fails twice on the connection that is opened. -/
def flaky : Schedule ℕ where
  opens := fun _ => none
  probe := fun _ _ => true
  run := fun i _ => if i < 2 then .failed "Connection is closed." else .result 7

theorem retries_iff_steady_flaky : flaky.Retries none "count" 5 ∧
    (RetryQuery.call flaky none (some "count") 5).1 = .ok (some 7) := by
  have hsteady : flaky.Steady none 5 := by
    constructor
    · exact fun _ => rfl
    · intro k _ _
      exact ⟨2, by decide, fun text h => by cases h⟩
  exact ⟨(retries_iff_steady (by decide)).mpr hsteady, by decide⟩

/-- The connection in the cache is dead, the server is up. -/
def stale : Schedule ℕ where
  opens := fun _ => none
  probe := fun _ c => c ≠ .cached
  run := fun _ c => if c = .cached then .failed "Connection is closed." else .result 7

theorem stale_reachable : stale.ReachableFrom 0 5 := fun _ _ _ => ⟨rfl, 7, rfl⟩

theorem stale_not_retried : ¬stale.Retries (some .cached) "count" 5 := by
  intro h
  have hcall : (RetryQuery.call stale (some .cached) (some "count") 5).1 =
      .error (.runtimeError "Connection error during 'count': Connection is closed.") := by
    decide
  have hgood := h.returns 0 (by decide) stale_reachable
  rw [hcall] at hgood
  rcases hgood with ⟨_, _, _, _, _, hres⟩ | ⟨_, _, _, _, _, hres⟩ <;> cases hres

end Schedule
end RethinkDB.Utils
