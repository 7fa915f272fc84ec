import TripPlanner.Proofs.Text.Numerals
import TripPlanner.Proofs.Url.Host

/-!
# Authorities read back

User name, password and port of an authority are read as they were written, as its host is
(`authorityAt_write`). What is read is in the form in which it is written (`written_authorityAt`).
-/

namespace TripPlanner.Url

open Text

/-! ## Ports -/

theorem port_le {s rest : List Char} {n m : Nat} (hn : n ≤ 65535) (h : port n s = .ok (m, rest)) :
    m ≤ 65535 := by
  induction s generalizing n with
  | nil =>
    cases h
    exact hn
  | cons c s ih =>
    rw [port] at h
    simp only at h
    split_ifs at h with hDigit hLarge
    · exact ih (Nat.le_of_not_lt hLarge) h
    · cases h
      exact hn

/-- What may follow an authority. -/
def EndsAuthority (rest : List Char) : Prop :=
  ∀ c ∈ rest.head?, c = '/' ∨ c = '\\' ∨ endsPath c = true

theorem port_of_endsAuthority {rest : List Char} (h : EndsAuthority rest) (n : Nat) :
    port n rest = .ok (n, rest) := by
  cases rest with
  | nil => rfl
  | cons c rest =>
    have hEnds := h c rfl
    have hDigit : ¬ isDigit c = true := by
      intro hDigit
      rcases hEnds with rfl | rfl | hEnds
      · cases hDigit
      · cases hDigit
      · rw [endsPath, Bool.or_eq_true, beq_iff_eq, beq_iff_eq] at hEnds
        rcases hEnds with rfl | rfl
        · cases hDigit
        · cases hDigit
    rw [port, if_neg hDigit, if_pos hEnds]

/-- The digits of a port are read up to its end. -/
theorem port_append {ds rest : List Char} (hDigits : ∀ c ∈ ds, isDigit c = true)
    (hRest : EndsAuthority rest) {n : Nat}
    (h : ds.foldl (fun n c => n * 10 + digitValue c) n ≤ 65535) :
    port n (ds ++ rest) = .ok (ds.foldl (fun n c => n * 10 + digitValue c) n, rest) := by
  induction ds generalizing n with
  | nil => exact port_of_endsAuthority hRest n
  | cons c ds ih =>
    obtain ⟨hHead, hTail⟩ := List.forall_mem_cons.mp hDigits
    rw [List.foldl_cons] at h ⊢
    -- Digits that follow do not make a number smaller.
    have hSmall : ¬ 65535 < n * 10 + digitValue c := by
      rw [foldl_digits] at h
      have hPower := Nat.one_le_pow ds.length 10 (by decide)
      have hMul := Nat.le_mul_of_pos_right (n * 10 + digitValue c) hPower
      omega
    rw [List.cons_append, port, if_pos hHead]
    simp only [hSmall, if_false]
    exact ih hTail h

/-- A port other than the usual one. -/
def IsPort (scheme : List Char) (port : Nat) : Prop :=
  port ≤ 65535 ∧ usualPort? scheme ≠ some port

/-- The text of a port. -/
def writePort : Option Nat → List Char
  | some port => ':' :: digits port
  | none => []

theorem isPort_of_portAfter {scheme s rest : List Char} {p : Option Nat}
    (h : portAfter scheme s = .ok (p, rest)) : ∀ n ∈ p, IsPort scheme n := by
  unfold portAfter at h
  split at h
  case h_1 digits =>
    obtain ⟨⟨n, after⟩, hPort, h⟩ := Checks.bind_eq_ok.mp h
    simp only at h
    cases h
    split
    case isTrue hGiven =>
      rintro _ ⟨⟩
      have hOther := (Bool.and_eq_true _ _ ▸ hGiven).2
      exact ⟨port_le (Nat.zero_le _) hPort, by simpa using hOther⟩
    case isFalse => exact fun _ hMem => (nomatch hMem)
  case h_2 =>
    cases h
    exact fun _ hMem => (nomatch hMem)

theorem port_eq_none_of_head? {scheme s rest : List Char} {p : Option Nat} (h : s.head? ≠ some ':')
    (hPort : portAfter scheme s = .ok (p, rest)) : p = none := by
  unfold portAfter at hPort
  split at hPort
  case h_1 => exact absurd rfl h
  case h_2 =>
    cases hPort
    rfl

theorem portAfter_of_endsAuthority {rest : List Char} (h : EndsAuthority rest)
    (scheme : List Char) : portAfter scheme rest = .ok (none, rest) := by
  unfold portAfter
  split
  case h_1 =>
    rcases h _ rfl with hSlash | hSlash | hEnds
    · cases hSlash
    · cases hSlash
    · cases hEnds
  case h_2 => rfl

/-- A port is read as it was written. -/
theorem portAfter_write {scheme rest : List Char} {p : Option Nat}
    (hPort : ∀ n ∈ p, IsPort scheme n) (hRest : EndsAuthority rest) :
    portAfter scheme (writePort p ++ rest) = .ok (p, rest) := by
  cases p with
  | none => exact portAfter_of_endsAuthority hRest scheme
  | some n =>
    obtain ⟨hLe, hOther⟩ := hPort n rfl
    have hValue : (digits n).foldl (fun n c => n * 10 + digitValue c) 0 = n := ofDigits_digits n
    have hRead : port 0 (digits n ++ rest) = .ok (n, rest) := by
      have hAppend := port_append (fun _ => isDigit_of_mem_digits) hRest (hValue.trans_le hLe)
      rwa [hValue] at hAppend
    have hGiven : rest.length < (digits n ++ rest).length := by
      have hPositive := List.length_pos_iff.mpr (digits_ne_nil n)
      rw [List.length_append]
      omega
    have hBoth : (decide (rest.length < (digits n ++ rest).length) &&
        usualPort? scheme != some n) = true := by
      rw [decide_eq_true hGiven, Bool.true_and, bne_iff_ne]
      exact hOther
    rw [writePort, List.cons_append, portAfter, hRead]
    exact congrArg (fun p => Except.ok (p, rest)) (if_pos hBoth)

/-! ## User names and passwords -/

/-- User name and password as they are written, without their end mark. -/
def Authority.login (a : Authority) : List Char :=
  match a.password with
  | some password => a.user ++ ':' :: password
  | none => a.user

/-- Whether there is anything to write before the host. -/
def Authority.isNamed (a : Authority) : Bool := !a.user.isEmpty || a.password.isSome

theorem Authority.isNamed_eq_false {a : Authority} :
    a.isNamed = false ↔ a.user = [] ∧ a.password = none := by
  simp [isNamed]

theorem Authority.login_ne_nil {a : Authority} (h : a.isNamed = true) : a.login ≠ [] := by
  rw [login]
  split
  case h_1 => simp
  case h_2 hNone => simpa [isNamed, hNone] using h

theorem Authority.credentials_eq (a : Authority) :
    a.credentials = if a.isNamed then a.login ++ ['@'] else [] := by
  obtain ⟨user, password, host, port⟩ := a
  cases password with
  | some password => simp [credentials, isNamed, login]
  | none => cases user <;> simp [credentials, isNamed, login]

/-- The forms of authorities that have been read. -/
structure Authority.Written (kind : SchemeKind) (scheme : List Char) (a : Authority) : Prop where
  user : ∀ c ∈ a.user, Percent.inUser c = true
  password : ∀ password ∈ a.password, password ≠ [] ∧ ∀ c ∈ password, Percent.inUser c = true
  host : a.host.Written kind
  port : ∀ port ∈ a.port, IsPort scheme port
  alone : a.host = .name [] → a.isNamed = false ∧ a.port = none

theorem credentials_spec (s : List Char) :
    (∀ c ∈ (credentials s).1, Percent.inUser c = true) ∧
      ∀ password ∈ (credentials s).2, password ≠ [] ∧ ∀ c ∈ password, Percent.inUser c = true := by
  have hAdmitted : ∀ t : List Char, ∀ c ∈ Percent.encode Percent.inUser t,
      Percent.inUser c = true :=
    fun _ _ => Percent.admitted_of_mem_encode Percent.admitsEncoding_inUser
  refine ⟨hAdmitted _, ?_⟩
  rw [credentials]
  simp only
  split
  case isTrue => exact fun _ hMem => (nomatch hMem)
  case isFalse hNe =>
    rintro _ ⟨⟩
    exact ⟨Percent.encode_ne_nil fun hNil => hNe (List.isEmpty_iff.mpr hNil), hAdmitted _⟩

/-- User name and password are read as they were written. -/
theorem credentials_login {kind : SchemeKind} {scheme : List Char} {a : Authority}
    (h : a.Written kind scheme) : credentials a.login = (a.user, a.password) := by
  have hColon : ∀ c ∈ a.user, decide (c ≠ ':') = true := fun c hMem =>
    decide_eq_true fun hEq => absurd (h.user c hMem) (by rw [hEq]; decide)
  have hUser := Percent.encode_eq_self h.user
  rw [Authority.login, credentials]
  split
  case h_1 password hPassword =>
    obtain ⟨hNe, hAdmitted⟩ := h.password password hPassword
    rw [List.takeWhile_append_of_pos hColon, List.dropWhile_append_of_pos hColon]
    simp [hUser, hNe, Percent.encode_eq_self hAdmitted, hPassword]
  case h_2 hNone =>
    have hTake : a.user.takeWhile (· ≠ ':') = a.user := List.takeWhile_eq_self_iff.mpr hColon
    have hDrop : a.user.dropWhile (· ≠ ':') = [] := List.dropWhile_eq_nil_iff.mpr hColon
    rw [hTake, hDrop, hUser, hNone]
    rfl

theorem notMem_serverMarks_of_mem_login {kind : SchemeKind} {scheme : List Char} {a : Authority}
    (h : a.Written kind scheme) {c : Char} (hMem : c ∈ a.login) : c ∉ Host.serverMarks := by
  have hUser : Percent.inUser c = true → c ∉ Host.serverMarks := Host.notMem_of_class (by decide)
  rw [Authority.login] at hMem
  split at hMem
  case h_1 password hPassword =>
    rcases List.mem_append.mp hMem with hMem | hMem
    · exact hUser (h.user c hMem)
    · rcases List.mem_cons.mp hMem with rfl | hMem
      · decide
      · exact hUser ((h.password password hPassword).2 c hMem)
  case h_2 => exact hUser (h.user c hMem)

/-! ## Authorities -/

/-- Host and port of an authority. -/
def Authority.server (a : Authority) : List Char := a.host.write ++ writePort a.port

theorem Authority.write_eq (a : Authority) : a.write = a.credentials ++ a.server := by
  rw [Authority.write, server, List.append_assoc]
  rfl

theorem notMem_serverMarks_of_mem_server {kind : SchemeKind} {scheme : List Char} {a : Authority}
    (h : a.Written kind scheme) {c : Char} (hMem : c ∈ a.server) : c ∉ Host.serverMarks := by
  rcases List.mem_append.mp hMem with hHost | hPort
  · exact Host.notMem_serverMarks h.host hHost
  · cases hp : a.port with
    | none =>
      rw [hp] at hPort
      cases hPort
    | some port =>
      rw [hp] at hPort
      rcases List.mem_cons.mp hPort with rfl | hMem
      · decide
      · exact Host.notMem_of_class (by decide) (isDigit_of_mem_digits hMem)

/-- Nothing in an authority ends it. -/
theorem outsidePath_of_mem_authority {kind : SchemeKind} {scheme : List Char} {a : Authority}
    (h : a.Written kind scheme) {c : Char} (hMem : c ∈ a.write) :
    Host.outsidePath kind c = true := by
  rw [Authority.write_eq, Authority.credentials_eq] at hMem
  rcases List.mem_append.mp hMem with hMem | hMem
  · split at hMem
    case isTrue =>
      rcases List.mem_append.mp hMem with hMem | hMem
      · exact (Host.outsidePath_of_notMem_serverMarks kind
          (notMem_serverMarks_of_mem_login h hMem)).1
      · rw [List.mem_singleton.mp hMem]
        cases kind <;> decide
    case isFalse => cases hMem
  · exact (Host.outsidePath_of_notMem_serverMarks kind (notMem_serverMarks_of_mem_server h hMem)).1

/-- Without a mark there is no user. -/
theorem spanUser_of_notMem {kind : SchemeKind} {s server : List Char}
    (hServer : s.takeWhile (Host.outsidePath kind) = server) (h : '@' ∉ server) :
    spanUser kind s = (none, s) := by
  subst hServer
  exact if_neg fun hContains => h (List.contains_iff_mem.mp hContains)

/-- What stands before the last mark is the user. -/
theorem spanUser_of_mem {kind : SchemeKind} {s login server : List Char}
    (hAll : s.takeWhile (Host.outsidePath kind) = login ++ '@' :: server) (h : '@' ∉ server) :
    spanUser kind s = (some login, s.drop (login.length + 1)) := by
  have hAfter : ((login ++ '@' :: server).reverse.takeWhile (· ≠ '@')).length = server.length := by
    rw [List.reverse_append, List.reverse_cons, List.append_assoc, takeWhile_of_ends]
    · exact List.length_reverse
    · exact fun c hMem => decide_eq_true fun hEq => h (hEq ▸ List.mem_reverse.mp hMem)
    · simp
  have hLength : (login ++ '@' :: server).length - server.length - 1 = login.length := by
    simp only [List.length_append, List.length_cons]
    omega
  have hContains : (login ++ '@' :: server).contains '@' = true :=
    List.contains_iff_mem.mpr (List.mem_append_right _ List.mem_cons_self)
  have hSpan : spanUser kind s =
      if (s.takeWhile (Host.outsidePath kind)).contains '@' then
        (some ((s.takeWhile (Host.outsidePath kind)).take
            ((s.takeWhile (Host.outsidePath kind)).length -
              ((s.takeWhile (Host.outsidePath kind)).reverse.takeWhile (· ≠ '@')).length - 1)),
          s.drop (((s.takeWhile (Host.outsidePath kind)).take
            ((s.takeWhile (Host.outsidePath kind)).length -
              ((s.takeWhile (Host.outsidePath kind)).reverse.takeWhile (· ≠ '@')).length -
                1)).length + 1))
      else (none, s) := rfl
  rw [hSpan, hAll, if_pos hContains, hAfter, hLength, List.take_left]

/-- User and password are cut off at the last mark before the path. -/
theorem spanUser_write {kind : SchemeKind} {scheme : List Char} {a : Authority}
    (h : a.Written kind scheme) {rest : List Char}
    (hRest : ∀ c ∈ rest.head?, Host.outsidePath kind c = false) :
    spanUser kind (a.write ++ rest) =
      (if a.isNamed then some a.login else none, a.server ++ rest) := by
  have hServer : ∀ c ∈ a.server, Host.outsidePath kind c = true ∧ c ≠ '@' := fun c hMem =>
    Host.outsidePath_of_notMem_serverMarks kind (notMem_serverMarks_of_mem_server h hMem)
  have hLogin : ∀ c ∈ a.login, Host.outsidePath kind c = true ∧ c ≠ '@' := fun c hMem =>
    Host.outsidePath_of_notMem_serverMarks kind (notMem_serverMarks_of_mem_login h hMem)
  have hUnmarked : '@' ∉ a.server := fun hMem => (hServer '@' hMem).2 rfl
  rw [Authority.write_eq, Authority.credentials_eq]
  split
  case isTrue hNamed =>
    have hText : a.login ++ ['@'] ++ a.server ++ rest = a.login ++ '@' :: a.server ++ rest := by
      rw [List.append_assoc a.login, List.singleton_append]
    have hDrop : (a.login ++ '@' :: a.server ++ rest).drop (a.login.length + 1) =
        a.server ++ rest := by
      rw [List.append_assoc, ← List.drop_drop, List.drop_left]
      rfl
    have hAll : ∀ c ∈ a.login ++ '@' :: a.server, Host.outsidePath kind c = true := by
      refine List.forall_mem_append.mpr ⟨fun c hMem => (hLogin c hMem).1,
        List.forall_mem_cons.mpr ⟨?_, fun c hMem => (hServer c hMem).1⟩⟩
      cases kind <;> decide
    rw [hText, spanUser_of_mem (takeWhile_of_ends hAll hRest) hUnmarked, hDrop]
  case isFalse =>
    rw [List.nil_append]
    exact spanUser_of_notMem (takeWhile_of_ends (fun c hMem => (hServer c hMem).1) hRest) hUnmarked

theorem endsHost_port {kind : SchemeKind} (p : Option Nat) {rest : List Char}
    (hRest : ∀ c ∈ rest.head?, Host.outsidePath kind c = false) :
    Host.EndsHost kind (writePort p ++ rest) := by
  cases p with
  | none => exact fun c hMem => Or.inl (hRest c hMem)
  | some n =>
    rintro c ⟨⟩
    exact Or.inr rfl

theorem endsAuthority_of_outsidePath {kind : SchemeKind} {rest : List Char}
    (hRest : ∀ c ∈ rest.head?, Host.outsidePath kind c = false) : EndsAuthority rest := by
  intro c hMem
  have hEnds := hRest c hMem
  rw [Host.outsidePath, Bool.not_eq_false', Bool.or_eq_true, SchemeKind.isSlash, Bool.or_eq_true,
    Bool.and_eq_true, beq_iff_eq, beq_iff_eq] at hEnds
  tauto

theorem hostOf_write {kind : SchemeKind} {host : Host} (h : host.Written kind) :
    hostOf kind host.write = .ok host := by
  rw [hostOf]
  split
  case isTrue hPlain =>
    subst hPlain
    exact Host.plainHost_write h
  case isFalse hKind => exact Host.specialHost_write h hKind

theorem written_hostOf {kind : SchemeKind} {name : List Char} {host : Host}
    (h : hostOf kind name = .ok host) : host.Written kind := by
  rw [hostOf] at h
  split at h
  case isTrue hPlain =>
    subst hPlain
    exact Host.written_plainHost h
  case isFalse hKind => exact Host.written_specialHost hKind h

/-- Hosts of special schemes are not empty. -/
theorem Host.write_ne_nil {kind : SchemeKind} (hKind : kind ≠ .plain) {host : Host}
    (h : host.Written kind) : host.write ≠ [] := by
  cases h with
  | name => exact absurd rfl hKind
  | domain _ _ hNe => exact hNe
  | @ipv4 _ address => exact Ipv4.write_ne_nil address
  | ipv6 => exact List.cons_ne_nil _ _

theorem Authority.write_ne_nil {scheme : List Char} {a : Authority}
    (h : a.Written .special scheme) : a.write ≠ [] := by
  rw [Authority.write_eq, server]
  exact List.append_ne_nil_of_right_ne_nil _
    (List.append_ne_nil_of_left_ne_nil (Host.write_ne_nil (by decide) h.host) _)

/-- An authority that is written is read as it is. -/
theorem authorityAt_write {kind : SchemeKind} {scheme : List Char} {a : Authority}
    (h : a.Written kind scheme) {rest : List Char}
    (hRest : ∀ c ∈ rest.head?, Host.outsidePath kind c = false) :
    authorityAt kind scheme (a.write ++ rest) = .ok (a, rest) := by
  have hLogin : credentials ((if a.isNamed then some a.login else none).getD []) =
      (a.user, a.password) := by
    split
    case isTrue => exact credentials_login h
    case isFalse hNamed =>
      obtain ⟨hUser, hPassword⟩ := Authority.isNamed_eq_false.mp (Bool.eq_false_iff.mpr hNamed)
      rw [hUser, hPassword]
      rfl
  have hSpan : spanHost kind false (a.server ++ rest) =
      (a.host.write, writePort a.port ++ rest) := by
    rw [Authority.server, List.append_assoc]
    exact Host.spanHost_write h.host (endsHost_port a.port hRest)
  have hGiven : ¬ ((decide ((if a.isNamed then some a.login else none) = some []) &&
      startsPath kind (a.server ++ rest)) ||
        (decide (kind = .special) && a.host.write.isEmpty)) = true := by
    have hLogin : (if a.isNamed then some a.login else none) ≠ some [] := by
      split
      case isTrue hNamed => exact fun hEq => Authority.login_ne_nil hNamed (Option.some.inj hEq)
      case isFalse => exact Option.some_ne_none _ ∘ Eq.symm
    have hHost : kind = .special → a.host.write.isEmpty = false := by
      rintro rfl
      exact Bool.eq_false_iff.mpr fun hEmpty =>
        Host.write_ne_nil (by decide) h.host (List.isEmpty_iff.mp hEmpty)
    rw [decide_eq_false hLogin, Bool.false_and, Bool.false_or, Bool.and_eq_true, decide_eq_true_eq]
    rintro ⟨hSpecial, hEmpty⟩
    exact Bool.false_ne_true ((hHost hSpecial).symm.trans hEmpty)
  have hAlone : ¬ (decide (a.host = .name []) &&
      (decide ((writePort a.port ++ rest).head? = some ':') || !a.user.isEmpty ||
        a.password.isSome)) = true := by
    rw [Bool.and_eq_true, decide_eq_true_eq]
    rintro ⟨hHost, hOther⟩
    obtain ⟨hNamed, hPort⟩ := h.alone hHost
    obtain ⟨hUser, hPassword⟩ := Authority.isNamed_eq_false.mp hNamed
    have hColon : rest.head? ≠ some ':' := by
      intro hHead
      have hEnds := hRest ':' hHead
      cases kind <;> cases hEnds
    rw [hPort, hUser, hPassword] at hOther
    simp [writePort, hColon] at hOther
  rw [authorityAt, spanUser_write h hRest]
  simp only [hLogin, hSpan]
  rw [if_neg hGiven, hostOf_write h.host]
  show authorityOf scheme a.user a.password a.host (writePort a.port ++ rest) = _
  rw [authorityOf, if_neg hAlone, portAfter_write h.port (endsAuthority_of_outsidePath hRest)]
  rfl

/-- What is read is in the form in which it is written. -/
theorem written_authorityAt {kind : SchemeKind} {scheme s rest : List Char}
    {a : Authority} (h : authorityAt kind scheme s = .ok (a, rest)) : a.Written kind scheme := by
  rw [authorityAt] at h
  simp only at h
  split at h
  case isTrue => cases h
  case isFalse =>
    obtain ⟨host, hHost, h⟩ := Checks.bind_eq_ok.mp h
    rw [authorityOf] at h
    split at h
    case isTrue => cases h
    case isFalse hAlone =>
      obtain ⟨⟨port, after⟩, hPort, h⟩ := Checks.bind_eq_ok.mp h
      cases h
      obtain ⟨hUser, hPassword⟩ := credentials_spec ((spanUser kind s).1.getD [])
      refine ⟨hUser, hPassword, written_hostOf hHost, isPort_of_portAfter hPort, fun hEmpty => ?_⟩
      obtain rfl : host = .name [] := hEmpty
      simp only [decide_true, Bool.true_and, Bool.or_eq_true, not_or, decide_eq_true_eq,
        Bool.not_eq_true', Bool.not_eq_false, List.isEmpty_iff, Option.not_isSome_iff_eq_none]
        at hAlone
      obtain ⟨⟨hColon, hNoUser⟩, hNoPassword⟩ := hAlone
      exact ⟨Authority.isNamed_eq_false.mpr ⟨hNoUser, hNoPassword⟩,
        port_eq_none_of_head? hColon hPort⟩

theorem isPrintable_of_inUser {c : Char} (h : Percent.inUser c = true) :
    Percent.isPrintable c = true := (Bool.and_eq_true _ _ ▸ h).1

/-- Authorities are written in printable characters. -/
theorem isPrintable_of_mem_authority {kind : SchemeKind} {scheme : List Char} {a : Authority}
    (h : a.Written kind scheme) {c : Char} (hMem : c ∈ a.write) : Percent.isPrintable c = true := by
  rw [Authority.write_eq, Authority.credentials_eq, Authority.server] at hMem
  rcases List.mem_append.mp hMem with hMem | hMem
  · split at hMem
    case isTrue =>
      rcases List.mem_append.mp hMem with hMem | hMem
      · rw [Authority.login] at hMem
        split at hMem
        case h_1 password hPassword =>
          rcases List.mem_append.mp hMem with hMem | hMem
          · exact isPrintable_of_inUser (h.user c hMem)
          · rcases List.mem_cons.mp hMem with rfl | hMem
            · decide
            · exact isPrintable_of_inUser ((h.password password hPassword).2 c hMem)
        case h_2 => exact isPrintable_of_inUser (h.user c hMem)
      · rw [List.mem_singleton.mp hMem]
        decide
    case isFalse => cases hMem
  · rcases List.mem_append.mp hMem with hMem | hMem
    · exact Host.isPrintable_of_mem_write h.host hMem
    · cases hPort : a.port with
      | none =>
        rw [hPort] at hMem
        cases hMem
      | some port =>
        rw [hPort] at hMem
        rcases List.mem_cons.mp hMem with rfl | hMem
        · decide
        · obtain ⟨hLow, hHigh⟩ := isDigit_iff.mp (isDigit_of_mem_digits hMem)
          exact Percent.isPrintable_iff.mpr ⟨by omega, by omega⟩

end TripPlanner.Url
