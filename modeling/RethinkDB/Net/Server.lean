import RethinkDB.Net.Frames

/-! A conforming server: it answers each request that wants an answer with one decodable
response under the request's token. Answers to one token come in the order of its requests,
answers to different tokens in any order. `proper` is what a decoded response must satisfy
besides. -/
namespace RethinkDB.Net
open RethinkDB.Lib

variable {V : Type}

/-- Only a `START` under `noreply` is not answered. -/
def Query.Answerable (q : Query V) : Prop := q.type ≠ .start ∨ q.noreply = false

instance (q : Query V) : Decidable q.Answerable := by
  unfold Query.Answerable
  infer_instance

/-- An error response carries its message, the `data[0]` that `make_error` takes. -/
def Message.Explained (m : Message V) : Prop :=
  m.type = .clientError ∨ m.type = .compileError ∨ m.type = .runtimeError → m.data ≠ []

instance (m : Message V) : Decidable m.Explained := by
  unfold Message.Explained
  infer_instance

/-- Requests that want an answer, and the answers given, both oldest first. -/
structure ServerState (V : Type) where
  requests : List (Query V)
  answers : List Frame

namespace ServerState

def asked (s : ServerState V) (token : ℤ) : ℕ := s.requests.countP (·.token = token)

def told (s : ServerState V) (token : ℤ) : ℕ := s.answers.countP (·.token = token)

/-- The decoder of the query a token belongs to, which is the first one under it. -/
def decoder (default : Decoder V) (s : ServerState V) (token : ℤ) : Decoder V :=
  ((s.requests.find? (·.token = token)).bind Query.jsonDecoder).getD default

def Decodes (default : Decoder V) (proper : Message V → Prop) (s : ServerState V) (token : ℤ)
    (payload : Bytes) : Prop :=
  ∃ m, s.decoder default token payload = .ok m ∧ proper m

instance (default : Decoder V) (proper : Message V → Prop) [DecidablePred proper]
    (s : ServerState V) (token : ℤ) (payload : Bytes) :
    Decidable (s.Decodes default proper token payload) :=
  match h : s.decoder default token payload with
  | .ok m => decidable_of_iff (proper m) (by simp [Decodes, h])
  | .error e => isFalse fun ⟨m, hm, _⟩ => by simp [h] at hm

def receive (s : ServerState V) (q : Query V) : ServerState V :=
  if q.Answerable then { s with requests := s.requests ++ [q] } else s

/-- Answer a token with some bytes. A token nobody is waiting under, bytes that do not
decode and numbers that do not fit the wire are left alone. -/
def answer (default : Decoder V) (proper : Message V → Prop) [DecidablePred proper]
    (s : ServerState V) (a : ℤ × Bytes) : ServerState V × Bytes :=
  if h : -(2 ^ 63) ≤ a.1 ∧ a.1 < 2 ^ 63 ∧ a.2.length < 2 ^ 32 then
    if s.told a.1 < s.asked a.1 ∧ s.Decodes default proper a.1 a.2 then
      ({ s with answers := s.answers ++ [⟨a.1, a.2, h.1, h.2.1, h.2.2⟩] },
        encodeFrames [⟨a.1, a.2, h.1, h.2.1, h.2.2⟩])
    else (s, [])
  else (s, [])

/-- No token has more answers than requests, and every answer decodes. -/
structure Polite (default : Decoder V) (proper : Message V → Prop) (s : ServerState V) : Prop where
  owed : ∀ token, s.told token ≤ s.asked token
  decodes : ∀ f ∈ s.answers, s.Decodes default proper f.token f.payload

variable (default : Decoder V) (proper : Message V → Prop) [DecidablePred proper]

/-- What an action may change. -/
theorem answer_cases (s : ServerState V) (a : ℤ × Bytes) :
    s.answer default proper a = (s, []) ∨
      ∃ f : Frame, s.answer default proper a = ({ s with answers := s.answers ++ [f] }, encodeFrames [f]) ∧
        s.told f.token < s.asked f.token ∧ s.Decodes default proper f.token f.payload := by
  unfold answer
  split_ifs with hfits howed
  · exact Or.inr ⟨_, rfl, howed⟩
  · exact Or.inl rfl
  · exact Or.inl rfl

variable {default proper}

theorem Polite.answer {s : ServerState V} (h : s.Polite default proper) (a : ℤ × Bytes) :
    (s.answer default proper a).1.Polite default proper := by
  rcases s.answer_cases default proper a with heq | ⟨f, heq, hless, hdec⟩
  · rw [heq]
    exact h
  · rw [heq]
    refine ⟨fun token => ?_, fun g hg => ?_⟩
    · have howed := h.owed token
      simp only [told, asked, List.countP_append, List.countP_singleton] at *
      split_ifs with htoken
      · simp only [decide_eq_true_eq] at htoken
        subst htoken
        omega
      · omega
    · rcases List.mem_append.mp hg with hg | hg
      · exact h.decodes g hg
      · rw [List.mem_singleton.mp hg]
        exact hdec

theorem find_append_of_asked {s : ServerState V} {token : ℤ} (h : 0 < s.asked token) (q : Query V) :
    (s.requests ++ [q]).find? (·.token = token) = s.requests.find? (·.token = token) := by
  obtain ⟨r, hr, htoken⟩ := List.countP_pos_iff.mp h
  rw [List.find?_append]
  cases hf : s.requests.find? (·.token = token) with
  | some r => rfl
  | none => exact absurd htoken (by simpa using List.find?_eq_none.mp hf r hr)

omit [DecidablePred proper] in
theorem Polite.receive {s : ServerState V} (h : s.Polite default proper) (q : Query V) :
    (s.receive q).Polite default proper := by
  unfold ServerState.receive
  split_ifs with hq
  · refine ⟨fun token => (h.owed token).trans ?_, fun f hf => ?_⟩
    · simp [asked]
    · have hasked : 0 < s.asked f.token :=
        (List.countP_pos_iff.mpr ⟨f, hf, by simp⟩ : 0 < s.told f.token).trans_le (h.owed f.token)
      have hdec := h.decodes f hf
      unfold Decodes decoder at *
      rwa [find_append_of_asked hasked]
  · exact h

theorem receive_answers (s : ServerState V) (q : Query V) : (s.receive q).answers = s.answers := by
  unfold ServerState.receive
  split <;> rfl

end ServerState

/-- The server of a connection whose default decoder is `default`. -/
def conformingServer (default : Decoder V) (proper : Message V → Prop) [DecidablePred proper] :
    Peer V where
  State := ServerState V
  Act := ℤ × Bytes
  receive := ServerState.receive
  act := ServerState.answer default proper

def conformingServer_framed (default : Decoder V) (proper : Message V → Prop)
    [DecidablePred proper] : Framed (conformingServer default proper) where
  frames := ServerState.answers
  act s a := by
    rcases s.answer_cases default proper a with heq | ⟨f, heq, -⟩
    · exact ⟨[], by simp [conformingServer, heq]⟩
    · exact ⟨[f], by simp [conformingServer, heq]⟩
  receive := ServerState.receive_answers

namespace ServerState

variable {default : Decoder V} {proper : Message V → Prop} [DecidablePred proper]

theorem answer_requests (s : ServerState V) (a : ℤ × Bytes) :
    (s.answer default proper a).1.requests = s.requests := by
  rcases s.answer_cases default proper a with heq | ⟨f, heq, -⟩ <;> rw [heq]

/-- Acting on its own, the server stays polite and learns of no request. -/
theorem acts_polite (as : List (ℤ × Bytes)) {s : ServerState V} (h : s.Polite default proper) :
    ((conformingServer default proper).acts s as).1.Polite default proper ∧
      ((conformingServer default proper).acts s as).1.requests = s.requests := by
  induction as generalizing s with
  | nil => exact ⟨h, rfl⟩
  | cons a as ih =>
    obtain ⟨hpolite, hreq⟩ := ih (h.answer a)
    exact ⟨hpolite, hreq.trans (s.answer_requests a)⟩

end ServerState

end RethinkDB.Net
