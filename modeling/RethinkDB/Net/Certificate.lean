import RethinkDB.Lib.Pattern
import RethinkDB.Lib.Str

/-! `match_hostname` of the backport: which host names a certificate stands for. -/
namespace RethinkDB.Net.Certificate
open RethinkDB.Lib Pattern

/-- `str.lower` and what `re.IGNORECASE` takes for the same character, of which all that matters
here is that the dot is the same as itself only. -/
structure Casing where
  lower : List Char → List Char
  same : Char → Char → Bool
  same_dot : same '.' '.' = true
  dot_iff : ∀ {c d : Char}, same c d = true → (c = '.' ↔ d = '.')

/-- `ValueError` and the texts of a `CertificateError`. -/
inductive Raised where
  /-- "empty or no certificate" -/
  | valueError
  /-- "too many wildcards in certificate DNS name: {name!r}" -/
  | tooManyWildcards (name : String)
  /-- "hostname {hostname!r} doesn't match either of {names}" -/
  | matchesNeither (hostname : String) (names : List String)
  /-- "hostname {hostname!r} doesn't match {name!r}" -/
  | doesNotMatch (hostname name : String)
  /-- "no appropriate commonName or subjectAltName fields were found" -/
  | noFields
  deriving Repr, DecidableEq

/-- A character of its own, `[^.]*` and `[^.]+`. -/
inductive Atom where
  | literal (c : Char)
  | dotlessMany
  | dotlessSome
  deriving Repr, DecidableEq

def escape (cs : List Char) : List Atom := cs.map .literal

/-- `.replace(r"\*", "[^.]*")` of an escaped text. -/
def replaceStar (atoms : List Atom) : List Atom :=
  atoms.map fun atom => if atom = .literal '*' then .dotlessMany else atom

def Atom.piece (C : Casing) : Atom → Piece Char
  | .literal c => .one (C.same c)
  | .dotlessMany => .many fun c => !C.same '.' c
  | .dotlessSome => .some fun c => !C.same '.' c

/-- `re.compile(r"\A" + r"\.".join(pats) + r"\Z", re.IGNORECASE).match(hostname)`. -/
def patMatch (C : Casing) (pats : List (List Atom)) (hostname : List Char) : Bool :=
  fullMatch (([Atom.literal '.'].intercalate pats).map (Atom.piece C)) hostname

def leftmostPat (leftmost hostname : List Char) : List Atom :=
  if leftmost = ['*'] then [.dotlessSome]
  else if "xn--".toList <+: leftmost ∨ "xn--".toList <+: hostname then escape leftmost
  else replaceStar (escape leftmost)

/-- `domain_name.split(".")`. -/
def parts (name : String) : List Char × List (List Char) :=
  let labels := name.toList.splitOn '.'
  (labels.headD [], labels.tail)

def maxWildcards : ℕ := 1

def wildcards (name : String) : ℕ := (parts name).1.count '*'

def dnsnameMatch (C : Casing) (domainName hostname : String) : Except Raised Bool :=
  if domainName = "" then .ok false
  else if maxWildcards < wildcards domainName then .error (.tooManyWildcards domainName)
  else if wildcards domainName = 0 then
    .ok (C.lower domainName.toList = C.lower hostname.toList)
  else
    let (leftmost, remainder) := parts domainName
    .ok (patMatch C (leftmostPat leftmost hostname.toList :: remainder.map escape) hostname.toList)

/-- A certificate as `getpeercert` decodes it; a field that it has not is empty. -/
structure Cert where
  subject : List (List (String × String))
  subjectAltName : List (String × String)
  deriving Repr, DecidableEq

/-- Either loop over the names: `none` where it returns, the names passed by where it ends. -/
def findMatch (C : Casing) (kind hostname : String) :
    List String → List (String × String) → Except Raised (Option (List String))
  | dnsnames, [] => .ok (some dnsnames)
  | dnsnames, (key, value) :: entries =>
    if key = kind then
      match dnsnameMatch C value hostname with
      | .error e => .error e
      | .ok true => .ok none
      | .ok false => findMatch C kind hostname (dnsnames ++ [value]) entries
    else findMatch C kind hostname dnsnames entries

def noMatch (hostname : String) : List String → Raised
  | [] => .noFields
  | [name] => .doesNotMatch hostname name
  | names => .matchesNeither hostname names

def matchHostname (C : Casing) (cert : Option Cert) (hostname : String) : Except Raised Unit :=
  match cert with
  | none => .error .valueError
  | some cert =>
    match findMatch C "DNS" hostname [] cert.subjectAltName with
    | .error e => .error e
    | .ok none => .ok ()
    | .ok (some (name :: names)) => .error (noMatch hostname (name :: names))
    | .ok (some []) =>
      match findMatch C "commonName" hostname [] cert.subject.flatten with
      | .error e => .error e
      | .ok none => .ok ()
      | .ok (some names) => .error (noMatch hostname names)

/-! ### What a name stands for -/

/-- Two labels are the same but for the case of letters. -/
def Same (C : Casing) : List Char → List Char → Prop := List.Forall₂ fun c d => C.same c d = true

/-- The leftmost label of a name with a wildcard stands for the first label of a host name: alone
the wildcard stands for every label but the empty one, in a label for any part of one, and nowhere
where one of the two is internationalized. -/
def LabelCovers (C : Casing) (leftmost hostname label : List Char) : Prop :=
  if leftmost = ['*'] then label ≠ []
  else if "xn--".toList <+: leftmost ∨ "xn--".toList <+: hostname then Same C leftmost label
  else ∃ before after, leftmost = before ++ '*' :: after ∧
    ∃ before' middle after', label = before' ++ middle ++ after' ∧ Same C before before' ∧
      Same C after after'

/-- The name stands for the host name: without a wildcard for itself, with one for the host names of
as many labels that are the same in all but the first. -/
def StandsFor (C : Casing) (name hostname : String) : Prop :=
  name ≠ "" ∧
    if wildcards name = 0 then C.lower name.toList = C.lower hostname.toList
    else ∃ label labels, hostname.toList.splitOn '.' = label :: labels ∧
      LabelCovers C (parts name).1 hostname.toList label ∧
      List.Forall₂ (Same C) (parts name).2 labels

section Matching
variable {C : Casing} {pats : List (List Atom)} {hostname label : List Char}
  {labels : List (List Char)}

theorem Same.no_dot {cs ds : List Char} (h : Same C cs ds) : '.' ∈ cs ↔ '.' ∈ ds := by
  induction h with
  | nil => simp
  | @cons c d cs ds hcd _ ih =>
    rw [List.mem_cons, List.mem_cons, ih, eq_comm, C.dot_iff hcd, eq_comm]

theorem match_escape {cs : List Char} :
    fullMatch ((escape cs).map (Atom.piece C)) label = true ↔ Same C cs label := by
  have hmap : (escape cs).map (Atom.piece C) = (cs.map C.same).map .one := by
    rw [escape, List.map_map, List.map_map]
    rfl
  rw [hmap, fullMatch_ones, Same, List.forall₂_map_left_iff]

/-- What the joined pattern asks for, label by label. -/
def Parts (C : Casing) : List (List Atom) → List (List Char) → Prop :=
  List.Forall₂ fun pat label => fullMatch (pat.map (Atom.piece C)) label = true

def Dotless (C : Casing) (pat : List Atom) : Prop :=
  ∀ label, fullMatch (pat.map (Atom.piece C)) label = true → '.' ∉ label

theorem dotless_escape {cs : List Char} (h : '.' ∉ cs) : Dotless C (escape cs) := by
  intro label hlabel hdot
  exact h ((match_escape.mp hlabel).no_dot.mpr hdot)

theorem match_intercalate (hne : pats ≠ []) :
    fullMatch (([Atom.literal '.'].intercalate pats).map (Atom.piece C)) hostname = true ↔
      ∃ labels, hostname = ['.'].intercalate labels ∧ Parts C pats labels := by
  induction pats generalizing hostname with
  | nil => exact absurd rfl hne
  | cons pat pats ih =>
    cases pats with
    | nil =>
      rw [List.intercalate_singleton]
      constructor
      · intro h
        exact ⟨[hostname], by rw [List.intercalate_singleton], .cons h .nil⟩
      · intro h
        obtain ⟨labels, rfl, hparts⟩ := h
        cases hparts with
        | cons hlabel hnil =>
          cases hnil with
          | nil => rwa [List.intercalate_singleton]
    | cons pat' pats =>
      rw [List.intercalate_cons_cons, List.append_assoc, List.map_append, fullMatch_append]
      constructor
      · intro h
        obtain ⟨label, rest, rfl, hlabel, hrest⟩ := h
        obtain ⟨d, zs, rfl, hd, hzs⟩ := fullMatch_one.mp hrest
        obtain ⟨labels, rfl, hparts⟩ := (ih (by simp)).mp hzs
        obtain ⟨label', labels, -, -, rfl⟩ := List.forall₂_cons_left_iff.mp hparts
        have hdot : d = '.' := (C.dot_iff hd).mp rfl
        refine ⟨label :: label' :: labels, ?_, .cons hlabel hparts⟩
        rw [hdot, List.intercalate_cons_cons, List.append_assoc]
        rfl
      · intro h
        obtain ⟨labels, rfl, hparts⟩ := h
        obtain ⟨label, labels, hlabel, hrests, rfl⟩ := List.forall₂_cons_left_iff.mp hparts
        have hrest := (ih (by simp)).mpr ⟨labels, rfl, hrests⟩
        obtain ⟨label', labels, -, -, rfl⟩ := List.forall₂_cons_left_iff.mp hrests
        rw [List.intercalate_cons_cons, List.append_assoc]
        exact ⟨label, _, rfl, hlabel, fullMatch_one.mpr ⟨'.', _, rfl, C.same_dot, hrest⟩⟩

/-- The pattern is matched label by label. -/
theorem patMatch_iff (hne : pats ≠ []) (hdotless : ∀ pat ∈ pats, Dotless C pat) :
    patMatch C pats hostname = true ↔ Parts C pats (hostname.splitOn '.') := by
  rw [patMatch, match_intercalate hne]
  constructor
  · intro h
    obtain ⟨labels, rfl, hparts⟩ := h
    have hdots : ∀ label ∈ labels, '.' ∉ label := by
      intro label hlabel
      obtain ⟨i, hi, rfl⟩ := List.getElem_of_mem hlabel
      have hi' : i < pats.length := hparts.length_eq ▸ hi
      exact hdotless _ (List.getElem_mem hi') _ (hparts.get hi' hi)
    have hlabels : labels ≠ [] := by
      intro hnil
      rw [hnil] at hparts
      cases hparts
      exact hne rfl
    rw [List.splitOn_intercalate '.' hdots hlabels]
    exact hparts
  · intro h
    exact ⟨hostname.splitOn '.', (List.intercalate_splitOn '.').symm, h⟩

theorem dot_free {cs : List Char} : (∀ c ∈ cs, (!C.same '.' c) = true) ↔ '.' ∉ cs := by
  constructor
  · intro h hdot
    have hsame := h '.' hdot
    rw [C.same_dot] at hsame
    cases hsame
  · intro h c hc
    rw [Bool.not_eq_true', ← Bool.not_eq_true]
    intro hsame
    rw [(C.dot_iff hsame).mp rfl] at hc
    exact h hc

theorem count_split {before after : List Char} (h : (before ++ '*' :: after).count '*' = 1) :
    '*' ∉ before ∧ '*' ∉ after := by
  rw [List.count_append, List.count_cons_self] at h
  exact ⟨List.count_eq_zero.mp (by omega), List.count_eq_zero.mp (by omega)⟩

theorem replaceStar_escape {before after : List Char} (hbefore : '*' ∉ before)
    (hafter : '*' ∉ after) :
    replaceStar (escape (before ++ '*' :: after)) = escape before ++
      .dotlessMany :: escape after := by
  have hkeep : ∀ cs : List Char, '*' ∉ cs → replaceStar (escape cs) = escape cs := by
    intro cs hcs
    rw [replaceStar, escape, List.map_map]
    apply List.map_congr_left
    intro c hc
    have hne : c ≠ '*' := fun h => hcs (h ▸ hc)
    simp [hne]
  have hsplit : replaceStar (escape (before ++ '*' :: after)) =
      replaceStar (escape before) ++ .dotlessMany :: replaceStar (escape after) := by
    simp [replaceStar, escape]
  rw [hsplit, hkeep before hbefore, hkeep after hafter]

theorem match_star {before after : List Char} :
    fullMatch ((escape before ++ .dotlessMany :: escape after).map (Atom.piece C)) label = true ↔
      ∃ before' middle after', label = before' ++ middle ++ after' ∧ '.' ∉ middle ∧
        Same C before before' ∧ Same C after after' := by
  rw [List.map_append, List.map_cons, fullMatch_append]
  constructor
  · intro h
    obtain ⟨before', rest, rfl, hbefore, hrest⟩ := h
    obtain ⟨middle, after', rfl, hmiddle, hafter⟩ := fullMatch_many.mp hrest
    exact ⟨before', middle, after', by rw [List.append_assoc], dot_free.mp hmiddle,
      match_escape.mp hbefore, match_escape.mp hafter⟩
  · intro h
    obtain ⟨before', middle, after', rfl, hmiddle, hbefore, hafter⟩ := h
    exact ⟨before', middle ++ after', by rw [List.append_assoc], match_escape.mpr hbefore,
      fullMatch_many.mpr ⟨middle, after', rfl, dot_free.mpr hmiddle, match_escape.mpr hafter⟩⟩

variable {leftmost : List Char}

theorem match_some : fullMatch ([Atom.dotlessSome].map (Atom.piece C)) label = true ↔
    label ≠ [] ∧ '.' ∉ label := by
  change fullMatch [.some fun c => !C.same '.' c] label = true ↔ _
  rw [fullMatch_some]
  constructor
  · intro h
    obtain ⟨ys, zs, hne, rfl, hys, hzs⟩ := h
    rw [fullMatch_nil.mp hzs, List.append_nil]
    exact ⟨hne, dot_free.mp hys⟩
  · intro h
    exact ⟨label, [], h.1, by rw [List.append_nil], dot_free.mpr h.2, fullMatch_nil.mpr rfl⟩

theorem match_leftmost (hcount : leftmost.count '*' = 1) (hleftmost : '.' ∉ leftmost) :
    fullMatch ((leftmostPat leftmost hostname).map (Atom.piece C)) label = true ↔
      LabelCovers C leftmost hostname label ∧ '.' ∉ label := by
  unfold leftmostPat LabelCovers
  by_cases hstar : leftmost = ['*']
  · rw [if_pos hstar, if_pos hstar]
    exact match_some
  · rw [if_neg hstar, if_neg hstar]
    by_cases hidna : "xn--".toList <+: leftmost ∨ "xn--".toList <+: hostname
    · rw [if_pos hidna, if_pos hidna, match_escape]
      exact ⟨fun h => ⟨h, fun hdot => hleftmost (h.no_dot.mpr hdot)⟩, fun h => h.1⟩
    · rw [if_neg hidna, if_neg hidna]
      constructor
      · intro h
        obtain ⟨before, after, rfl⟩ := List.append_of_mem
          (List.count_pos_iff.mp (by omega : 0 < leftmost.count '*'))
        obtain ⟨hbefore, hafter⟩ := count_split hcount
        rw [replaceStar_escape hbefore hafter, match_star] at h
        obtain ⟨before', middle, after', rfl, hmiddle, hsame, hsame'⟩ := h
        rw [List.mem_append, List.mem_cons, not_or, not_or] at hleftmost
        refine ⟨⟨before, after, rfl, before', middle, after', rfl, hsame, hsame'⟩, ?_⟩
        rw [List.mem_append, List.mem_append, ← hsame.no_dot, ← hsame'.no_dot, not_or, not_or]
        exact ⟨⟨hleftmost.1, hmiddle⟩, hleftmost.2.2⟩
      · intro h
        obtain ⟨⟨before, after, rfl, before', middle, after', rfl, hsame, hsame'⟩, hdot⟩ := h
        obtain ⟨hbefore, hafter⟩ := count_split hcount
        rw [replaceStar_escape hbefore hafter, match_star]
        refine ⟨before', middle, after', rfl, fun hmiddle => hdot ?_, hsame, hsame'⟩
        rw [List.mem_append, List.mem_append]
        exact .inl (.inr hmiddle)

end Matching

section Names
variable {C : Casing} {name hostname : String}

theorem parts_spec (name : String) :
    name.toList.splitOn '.' = (parts name).1 :: (parts name).2 := by
  obtain ⟨leftmost, remainder, hsplit⟩ :=
    List.exists_cons_of_ne_nil (List.splitOn_ne_nil '.' name.toList)
  rw [parts, hsplit]
  rfl

theorem patMatch_leftmost (hwildcards : wildcards name = 1) :
    patMatch C (leftmostPat (parts name).1 hostname.toList :: (parts name).2.map escape)
      hostname.toList = true ↔
    ∃ label labels, hostname.toList.splitOn '.' = label :: labels ∧
      LabelCovers C (parts name).1 hostname.toList label ∧
      List.Forall₂ (Same C) (parts name).2 labels := by
  have hdots : ∀ part ∈ (parts name).1 :: (parts name).2, '.' ∉ part := by
    intro part hpart
    rw [← parts_spec] at hpart
    exact Str.not_mem_splitOn hpart
  rw [List.forall_mem_cons] at hdots
  obtain ⟨hleftmost, hremainder⟩ := hdots
  have hdotless : ∀ pat ∈ leftmostPat (parts name).1 hostname.toList :: (parts name).2.map escape,
      Dotless C pat := by
    rw [List.forall_mem_cons]
    constructor
    · intro label hlabel
      exact ((match_leftmost hwildcards hleftmost).mp hlabel).2
    · intro pat hpat
      obtain ⟨part, hpart, rfl⟩ := List.mem_map.mp hpat
      exact dotless_escape (hremainder part hpart)
  rw [patMatch_iff (by simp) hdotless, Parts, List.forall₂_cons_left_iff]
  constructor
  · intro h
    obtain ⟨label, labels, hlabel, hlabels, hsplit⟩ := h
    rw [List.forall₂_map_left_iff] at hlabels
    exact ⟨label, labels, hsplit, ((match_leftmost hwildcards hleftmost).mp hlabel).1,
      hlabels.imp fun _ _ => match_escape.mp⟩
  · intro h
    obtain ⟨label, labels, hsplit, hlabel, hlabels⟩ := h
    have hdot : '.' ∉ label := Str.not_mem_splitOn (hsplit ▸ List.mem_cons_self)
    refine ⟨label, labels, (match_leftmost hwildcards hleftmost).mpr ⟨hlabel, hdot⟩, ?_, hsplit⟩
    rw [List.forall₂_map_left_iff]
    exact hlabels.imp fun _ _ => match_escape.mpr

theorem dnsnameMatch_spec (C : Casing) (name hostname : String) :
    match dnsnameMatch C name hostname with
    | .error e => e = .tooManyWildcards name ∧ name ≠ "" ∧ maxWildcards < wildcards name
    | .ok matched => (name = "" ∨ wildcards name ≤ maxWildcards) ∧
      (matched = true ↔ StandsFor C name hostname) := by
  unfold dnsnameMatch
  by_cases hname : name = ""
  · rw [if_pos hname]
    refine ⟨.inl hname, ?_⟩
    simp [StandsFor, hname]
  · rw [if_neg hname]
    by_cases hmany : maxWildcards < wildcards name
    · rw [if_pos hmany]
      exact ⟨rfl, hname, hmany⟩
    · rw [if_neg hmany]
      by_cases hnone : wildcards name = 0
      · rw [if_pos hnone]
        refine ⟨.inr (by omega), ?_⟩
        rw [StandsFor, if_pos hnone, decide_eq_true_iff]
        exact ⟨fun h => ⟨hname, h⟩, fun h => h.2⟩
      · rw [if_neg hnone]
        have hone : wildcards name = 1 := by
          unfold maxWildcards at hmany
          omega
        refine ⟨.inr (by omega), ?_⟩
        change patMatch C (leftmostPat (parts name).1 hostname.toList :: (parts name).2.map escape)
          hostname.toList = true ↔ _
        rw [patMatch_leftmost hone, StandsFor, if_neg hnone]
        exact ⟨fun h => ⟨hname, h⟩, fun h => h.2⟩

/-- A name that is not refused for its wildcards. -/
def Tame (name : String) : Prop := name = "" ∨ wildcards name ≤ maxWildcards

def PassedBy (C : Casing) (hostname : String) (names : List String) : Prop :=
  ∀ name ∈ names, Tame name ∧ ¬StandsFor C name hostname

def valuesOf (kind : String) (entries : List (String × String)) : List String :=
  (entries.filter fun entry => entry.1 = kind).map Prod.snd

/-- The names that count: the common names only where there is no DNS name. -/
def Cert.names (cert : Cert) : List String :=
  if valuesOf "DNS" cert.subjectAltName = [] then valuesOf "commonName" cert.subject.flatten
  else valuesOf "DNS" cert.subjectAltName

/-- One of the names stands for the host name, and none up to it has too many wildcards. -/
def Found (C : Casing) (hostname : String) (names : List String) : Prop :=
  ∃ before name after, names = before ++ name :: after ∧ StandsFor C name hostname ∧
    ∀ n ∈ before ++ [name], Tame n

/-- A name has too many wildcards, and those before it are passed by. -/
def Refused (C : Casing) (hostname : String) (names : List String) (name : String) : Prop :=
  ∃ before after, names = before ++ name :: after ∧ ¬Tame name ∧ PassedBy C hostname before

theorem valuesOf_cons (kind key value : String) (entries : List (String × String)) :
    valuesOf kind ((key, value) :: entries) =
      if key = kind then value :: valuesOf kind entries else valuesOf kind entries := by
  by_cases h : key = kind
  · simp [valuesOf, h]
  · simp [valuesOf, h]

theorem Found.cons {names : List String} (hname : Tame name) (h : Found C hostname names) :
    Found C hostname (name :: names) := by
  obtain ⟨before, found, after, rfl, hstands, htame⟩ := h
  refine ⟨name :: before, found, after, rfl, hstands, ?_⟩
  rw [List.cons_append, List.forall_mem_cons]
  exact ⟨hname, htame⟩

theorem Refused.cons {names : List String} {refused : String}
    (hname : Tame name ∧ ¬StandsFor C name hostname) (h : Refused C hostname names refused) :
    Refused C hostname (name :: names) refused := by
  obtain ⟨before, after, rfl, htame, hpassed⟩ := h
  exact ⟨name :: before, after, rfl, htame, List.forall_mem_cons.mpr ⟨hname, hpassed⟩⟩

theorem findMatch_spec (C : Casing) (kind hostname : String) (entries : List (String × String))
    (dnsnames : List String) : match findMatch C kind hostname dnsnames entries with
    | .error e => ∃ name, e = .tooManyWildcards name ∧
      Refused C hostname (valuesOf kind entries) name
    | .ok none => Found C hostname (valuesOf kind entries)
    | .ok (some names) => names = dnsnames ++ valuesOf kind entries ∧
      PassedBy C hostname (valuesOf kind entries) := by
  induction entries generalizing dnsnames with
  | nil =>
    rw [findMatch]
    simp [valuesOf, PassedBy]
  | cons entry entries ih =>
    obtain ⟨key, value⟩ := entry
    rw [findMatch, valuesOf_cons]
    by_cases hkey : key = kind
    · rw [if_pos hkey, if_pos hkey]
      have hvalue := dnsnameMatch_spec C value hostname
      cases hmatch : dnsnameMatch C value hostname with
      | error e =>
        rw [hmatch] at hvalue
        obtain ⟨rfl, hne, hmany⟩ := hvalue
        refine ⟨value, rfl, [], _, rfl, ?_, by simp [PassedBy]⟩
        rw [Tame, not_or, not_le]
        exact ⟨hne, hmany⟩
      | ok matched =>
        rw [hmatch] at hvalue
        obtain ⟨htame, hstands⟩ := hvalue
        cases matched with
        | true =>
          refine ⟨[], value, _, rfl, hstands.mp rfl, ?_⟩
          rw [List.nil_append, List.forall_mem_singleton]
          exact htame
        | false =>
          have hpassed : Tame value ∧ ¬StandsFor C value hostname :=
            ⟨htame, fun h => Bool.false_ne_true (hstands.mpr h)⟩
          have hrest := ih (dnsnames ++ [value])
          dsimp only
          revert hrest
          cases findMatch C kind hostname (dnsnames ++ [value]) entries with
          | error e =>
            rintro ⟨name, he, hrefused⟩
            exact ⟨name, he, hrefused.cons hpassed⟩
          | ok found =>
            cases found with
            | none => exact fun hfound => hfound.cons htame
            | some names =>
              rintro ⟨rfl, hall⟩
              exact ⟨by simp, List.forall_mem_cons.mpr ⟨hpassed, hall⟩⟩
    · rw [if_neg hkey, if_neg hkey]
      exact ih dnsnames

theorem Found.not_passedBy {names : List String} (h : Found C hostname names) :
    ¬PassedBy C hostname names := by
  obtain ⟨before, name, after, rfl, hstands, -⟩ := h
  intro hpassed
  exact (hpassed name (by simp)).2 hstands

theorem Refused.not_passedBy {names : List String} (h : Refused C hostname names name) :
    ¬PassedBy C hostname names := by
  obtain ⟨before, after, rfl, hname, -⟩ := h
  intro hpassed
  exact hname (hpassed name (by simp)).1

/-- Up to the name with too many wildcards none is found, and no other is the first of its kind. -/
theorem Refused.excludes {names : List String} (h : Refused C hostname names name) :
    ¬Found C hostname names ∧ ∀ name', Refused C hostname names name' → name' = name := by
  obtain ⟨before, after, rfl, hname, hpassed⟩ := h
  induction before with
  | nil =>
    constructor
    · intro hfound
      obtain ⟨before', found, after', hnames, -, htame⟩ := hfound
      cases before' with
      | nil => exact hname ((List.cons.inj hnames).1 ▸ htame found (by simp))
      | cons n before' => exact hname ((List.cons.inj hnames).1 ▸ htame n (by simp))
    · intro name' hrefused
      obtain ⟨before', after', hnames, -, hpassed'⟩ := hrefused
      cases before' with
      | nil => exact (List.cons.inj hnames).1.symm
      | cons n before' => exact absurd ((List.cons.inj hnames).1 ▸ (hpassed' n (by simp)).1) hname
  | cons n before ih =>
    obtain ⟨hn, hpassed⟩ := List.forall_mem_cons.mp hpassed
    obtain ⟨hnot, hunique⟩ := ih hpassed
    constructor
    · intro hfound
      obtain ⟨before', found, after', hnames, hstands, htame⟩ := hfound
      cases before' with
      | nil => exact hn.2 ((List.cons.inj hnames).1 ▸ hstands)
      | cons n' before' =>
        exact hnot ⟨before', found, after', (List.cons.inj hnames).2, hstands,
          (List.forall_mem_cons.mp htame).2⟩
    · intro name' hrefused
      obtain ⟨before', after', hnames, hname', hpassed'⟩ := hrefused
      cases before' with
      | nil => exact absurd ((List.cons.inj hnames).1 ▸ hn.1) hname'
      | cons n' before' =>
        exact hunique name' ⟨before', after', (List.cons.inj hnames).2, hname',
          (List.forall_mem_cons.mp hpassed').2⟩

/-- What the certificate comes to, by the names that count. -/
theorem matchHostname_names (C : Casing) (cert : Cert) (hostname : String) :
    match matchHostname C (some cert) hostname with
    | .ok _ => Found C hostname cert.names
    | .error e => (∃ name, e = .tooManyWildcards name ∧ Refused C hostname cert.names name) ∨
      (e = noMatch hostname cert.names ∧ PassedBy C hostname cert.names) := by
  have hdns := findMatch_spec C "DNS" hostname cert.subjectAltName []
  have hcommon := findMatch_spec C "commonName" hostname cert.subject.flatten []
  rw [List.nil_append] at hdns hcommon
  unfold matchHostname
  dsimp only
  have hnames : ∀ {names}, valuesOf "DNS" cert.subjectAltName = names → names ≠ [] →
      cert.names = names := by
    intro names h hne
    rw [Cert.names, if_neg (h ▸ hne), h]
  revert hdns
  cases findMatch C "DNS" hostname [] cert.subjectAltName with
  | error e =>
    rintro ⟨name, rfl, hrefused⟩
    rw [hnames rfl (by obtain ⟨before, after, h, -⟩ := hrefused; rw [h]; simp)]
    exact .inl ⟨name, rfl, hrefused⟩
  | ok result =>
    cases result with
    | none =>
      intro hfound
      dsimp only
      rw [hnames rfl (by obtain ⟨before, name, after, h, -⟩ := hfound; rw [h]; simp)]
      exact hfound
    | some names =>
      rintro ⟨hvalues, hpassed⟩
      cases names with
      | cons name names =>
        dsimp only
        rw [hnames hvalues.symm (by simp)]
        rw [← hvalues] at hpassed
        exact .inr ⟨rfl, hpassed⟩
      | nil =>
        have hall : cert.names = valuesOf "commonName" cert.subject.flatten := by
          rw [Cert.names, if_pos hvalues.symm]
        dsimp only
        rw [hall]
        revert hcommon
        cases findMatch C "commonName" hostname [] cert.subject.flatten with
        | error e =>
          rintro ⟨name, rfl, hrefused⟩
          exact .inl ⟨name, rfl, hrefused⟩
        | ok result =>
          cases result with
          | none => exact id
          | some names =>
            rintro ⟨rfl, hpassed⟩
            exact .inr ⟨rfl, hpassed⟩

/-- A certificate is accepted exactly for the host names that one of its names stands for, unless a
name before it has too many wildcards; the common names count only where there is no DNS name.
Whatever else it is refused with names what was wrong. -/
theorem matchHostname_spec (C : Casing) (cert : Option Cert) (hostname : String) :
    (matchHostname C cert hostname = .ok () ↔
      ∃ c, cert = some c ∧ Found C hostname c.names) ∧
    (∀ name, matchHostname C cert hostname = .error (.tooManyWildcards name) ↔
      ∃ c, cert = some c ∧ Refused C hostname c.names name) ∧
    (∀ c, cert = some c → PassedBy C hostname c.names →
      matchHostname C cert hostname = .error (noMatch hostname c.names)) := by
  cases cert with
  | none => simp [matchHostname]
  | some cert =>
    have hspec := matchHostname_names C cert hostname
    simp only [Option.some.injEq, exists_eq_left', forall_eq']
    cases hresult : matchHostname C (some cert) hostname with
    | ok u =>
      rw [hresult] at hspec
      refine ⟨by simpa using hspec, fun name => ?_,
        fun hpassed => absurd hpassed hspec.not_passedBy⟩
      simp only [reduceCtorEq, false_iff]
      intro hrefused
      exact hrefused.excludes.1 hspec
    | error e =>
      rw [hresult] at hspec
      rcases hspec with ⟨refused, rfl, hrefused⟩ | ⟨rfl, hpassed⟩
      · refine ⟨by simpa using hrefused.excludes.1, fun name => ?_,
          fun hpassed => absurd hpassed hrefused.not_passedBy⟩
        constructor
        · intro h
          cases h
          exact hrefused
        · intro h
          rw [hrefused.excludes.2 name h]
      · refine ⟨by simpa using fun hfound => hfound.not_passedBy hpassed, fun name => ?_,
          fun _ => rfl⟩
        constructor
        · intro h
          exfalso
          revert h
          unfold noMatch
          split <;> simp
        · intro h
          exact absurd hpassed h.not_passedBy

end Names

theorem toLower_eq_dot (c : Char) : c.toLower = '.' ↔ c = '.' := by
  constructor
  · intro h
    unfold Char.toLower at h
    split at h
    · rename_i hupper
      have hval : (c.val + ('a'.val - 'A'.val)).toNat = 46 :=
        congrArg (fun d : Char => d.val.toNat) h
      have hdiff : ('a'.val - 'A'.val).toNat = 32 := rfl
      have hleast : 65 ≤ c.val.toNat := UInt32.le_iff_toNat_le.mp hupper.1
      have hmost : c.val.toNat ≤ 90 := UInt32.le_iff_toNat_le.mp hupper.2
      rw [UInt32.toNat_add, hdiff] at hval
      omega
    · exact h
  · intro h
    rw [h]
    rfl

def asciiCasing : Casing where
  lower cs := cs.map Char.toLower
  same c d := c.toLower == d.toLower
  same_dot := rfl
  dot_iff := by
    intro c d h
    rw [← toLower_eq_dot c, ← toLower_eq_dot d, beq_iff_eq.mp h]

/-- A wildcard is for one label. -/
example : matchHostname asciiCasing (some ⟨[], [("DNS", "*.Db.example")]⟩) "n1.db.example" =
      .ok () ∧
    matchHostname asciiCasing (some ⟨[], [("DNS", "*.Db.example")]⟩) "a.n1.db.example" =
      .error (.doesNotMatch "a.n1.db.example" "*.Db.example") := by
  constructor
  · rfl
  · rfl

end RethinkDB.Net.Certificate
