import TripPlanner.Proofs.Text.Numerals
import TripPlanner.Proofs.Url.Address
import TripPlanner.Proofs.Url.Domain
import TripPlanner.Url.Reader

/-!
# Hosts read back

A host that has been read is an address or a name in its one form (`Host.Written`). It is cut out
of the text around it (`spanHost_write`) and read as it was written (`specialHost_write`,
`plainHost_write`).
-/

namespace TripPlanner.Url

open Text

/-- The characters that set a host off. -/
def hostMarks : List Char := "#/:?@[\\]|".toList

/-- The characters that no host of a scheme of its own holds. -/
def plainMarks : List Char := "\x00\t\n\r #/:<>?@[\\]^|".toList

theorem mem_plainMarks {c : Char} (h : c ∈ hostMarks) : c ∈ plainMarks := by
  have hAll : ∀ c ∈ hostMarks, c ∈ plainMarks := List.all_iff_forall_prop.mp (by decide)
  exact hAll c h

theorem notMem_hostMarks_of_admits {c : Char} (h : Domain.Admits c) : c ∉ hostMarks := by
  intro hMem
  have hAll : ∀ c ∈ hostMarks, Domain.isForbidden c.toNat = true :=
    List.all_iff_forall_prop.mp (by decide)
  exact Bool.false_ne_true (h.allowed.symm.trans (hAll c hMem))

/-- The forms of hosts that have been read. -/
inductive Host.Written : SchemeKind → Host → Prop
  | name {text : List Char} (hMarks : ∀ c ∈ text, Percent.isPrintable c = true ∧ c ∉ plainMarks) :
    Written .plain (.name text)
  | domain {kind : SchemeKind} {name : List Char} (hKind : kind ≠ .plain)
    (hName : Domain.IsName name) (hNe : name ≠ []) (hNumeric : Ipv4.isNumeric name = false) :
    Written kind (.name name)
  | ipv4 {kind : SchemeKind} {address : Nat} (hKind : kind ≠ .plain) (h : address < 256 ^ 4) :
    Written kind (.ipv4 address)
  | ipv6 {kind : SchemeKind} {groups : List Nat} (h : Ipv6.IsAddress groups) :
    Written kind (.ipv6 groups)

/-! ## Addresses as names -/

theorem Domain.admits_of_isDigit {c : Char} (h : isDigit c = true) :
    Domain.Admits c ∧ c.toNat < 0x80 ∧ c ≠ 'x' := by
  have hBounds := isDigit_iff.mp h
  have hAll : ∀ n < 128, isDigit (Char.ofNat n) = true →
      Domain.fold (Char.ofNat n) = [Char.ofNat n] ∧
      Domain.isForbidden (Char.ofNat n).toNat = false ∧ Char.ofNat n ≠ 'x' := by decide
  obtain ⟨hFold, hAllowed, hOther⟩ := of_ascii (P := fun c => isDigit c = true →
    Domain.fold c = [c] ∧ Domain.isForbidden c.toNat = false ∧ c ≠ 'x') hAll (by omega) h
  exact ⟨⟨hFold, hAllowed⟩, by omega, hOther⟩

/-- A numeral is a label. -/
theorem Domain.written_digits (n : Nat) : Domain.Written (digits n) := by
  have hDigit : ∀ c ∈ digits n, Domain.Admits c ∧ c.toNat < 0x80 ∧ c ≠ 'x' := fun c hMem =>
    Domain.admits_of_isDigit (isDigit_of_mem_digits hMem)
  have hBasic := Domain.isBasic_eq_true fun c hMem => (hDigit c hMem).2.1
  refine ⟨fun c hMem => (hDigit c hMem).1, hBasic, Ipv4.dot_notMem_digits n, ?_⟩
  refine Domain.label?_of_isBasic hBasic fun code hMark => ?_
  exact (hDigit 'x' (hMark ▸ List.mem_cons_self)).2.2 rfl

theorem Domain.isName_write (n : Nat) : Domain.IsName (Ipv4.write n) := by
  rw [Domain.IsName, Ipv4.splitAt_write]
  intro label hMem
  obtain ⟨octet, -, rfl⟩ := List.mem_map.mp hMem
  exact Domain.written_digits octet

theorem Ipv4.write_ne_nil (n : Nat) : Ipv4.write n ≠ [] := by
  intro hNil
  have hParts := Ipv4.splitAt_write n
  rw [hNil] at hParts
  simp [Ipv4.octets, splitAt, split] at hParts

namespace Host

/-! ## Hosts that have been read -/

theorem written_bracketed {kind : SchemeKind} {s : List Char} {host : Host}
    (h : bracketed s = .ok host) : host.Written kind := by
  rw [bracketed] at h
  split at h
  case isFalse => cases h
  case isTrue =>
    split at h
    case h_1 groups hRead =>
      cases h
      exact .ipv6 (Ipv6.isAddress_of_read? hRead)
    case h_2 => cases h

theorem written_specialHost {kind : SchemeKind} (hKind : kind ≠ .plain) {s : List Char}
    {host : Host} (h : specialHost s = .ok host) : host.Written kind := by
  rw [specialHost] at h
  split at h
  case isTrue => exact written_bracketed h
  case isFalse =>
    split at h
    case h_1 => cases h
    case h_2 => cases h
    case h_3 name hNe hName =>
      have hIsName := Domain.isName_of_toAscii? hName
      split at h
      case isTrue =>
        split at h
        case h_1 address hRead =>
          cases h
          exact .ipv4 hKind (Ipv4.lt_of_read? hRead)
        case h_2 => cases h
      case isFalse hNumeric =>
        cases h
        exact .domain hKind hIsName hNe (Bool.eq_false_iff.mpr hNumeric)

theorem written_plainHost {s : List Char} {host : Host} (h : plainHost s = .ok host) :
    host.Written .plain := by
  rw [plainHost] at h
  split at h
  case isTrue => exact written_bracketed h
  case isFalse =>
    split at h
    case isTrue => cases h
    case isFalse hMarks =>
      cases h
      refine .name fun c hMem => ⟨Percent.admitted_of_mem_encode
        Percent.admitsEncoding_isPrintable hMem, fun hMark => ?_⟩
      rcases Percent.mem_encode hMem with ⟨hOld, -⟩ | hEncoding
      · exact hMarks (List.any_eq_true.mpr ⟨c, hOld, List.contains_iff_mem.mpr hMark⟩)
      · have hAll : ∀ c ∈ plainMarks, Percent.isEncoding c = false :=
          List.all_iff_forall_prop.mp (by decide)
        exact Bool.false_ne_true ((hAll c hMark).symm.trans hEncoding)

/-! ## Hosts that are read again -/

theorem bracketed_write {groups : List Nat} (h : Ipv6.IsAddress groups) :
    bracketed (Ipv6.write groups) = .ok (.ipv6 groups) := by
  have hLast : (Ipv6.write groups).getLast? = some ']' := by
    rw [Ipv6.write_eq, ← List.cons_append, List.getLast?_concat]
  have hBody : (Ipv6.write groups).tail.dropLast = Ipv6.body groups := List.dropLast_concat
  rw [bracketed, if_pos hLast, hBody, Ipv6.read?_body h]

/-- A name that begins with no bracket. -/
theorem head?_ne_bracket {s : List Char} (h : '[' ∉ s) : s.head? ≠ some '[' :=
  fun hHead => h (List.mem_of_head? hHead)

theorem bracket_notMem {s : List Char} (h : Domain.IsName s) : '[' ∉ s := fun hMem =>
  notMem_hostMarks_of_admits (h.admits hMem).1 (by decide)

/-- A host of a special scheme is read as it was written. -/
theorem specialHost_write {kind : SchemeKind} {host : Host} (h : host.Written kind)
    (hKind : kind ≠ .plain) : specialHost host.write = .ok host := by
  cases h with
  | name => exact absurd rfl hKind
  | @domain _ name _ hName hNe hNumeric =>
    rw [write, specialHost, if_neg (head?_ne_bracket (bracket_notMem hName)), hName.toAscii?_eq]
    split
    case h_1 hNone => cases hNone
    case h_2 hEmpty => exact absurd (Option.some.inj hEmpty) hNe
    case h_3 hSome =>
      obtain rfl := Option.some.inj hSome
      exact if_neg (Bool.eq_false_iff.mp hNumeric)
  | @ipv4 _ address _ hLt =>
    have hName := Domain.isName_write address
    rw [write, specialHost, if_neg (head?_ne_bracket (bracket_notMem hName)), hName.toAscii?_eq]
    split
    case h_1 hNone => cases hNone
    case h_2 hEmpty => exact absurd (Option.some.inj hEmpty) (Ipv4.write_ne_nil address)
    case h_3 hSome =>
      obtain rfl := Option.some.inj hSome
      rw [if_pos (Ipv4.isNumeric_write address), Ipv4.read?_write hLt]
  | ipv6 hAddress =>
    rw [write, specialHost, if_pos (by rw [Ipv6.write_eq]; rfl)]
    exact bracketed_write hAddress

/-- A host of a scheme of its own is read as it was written. -/
theorem plainHost_write {host : Host} (h : host.Written .plain) :
    plainHost host.write = .ok host := by
  cases h with
  | @name text hMarks =>
    have hBracket : '[' ∉ text := fun hMem => (hMarks _ hMem).2 (by decide)
    have hNone : ¬ text.any (fun c => plainMarks.contains c) = true := by
      intro hAny
      obtain ⟨c, hMem, hMark⟩ := List.any_eq_true.mp hAny
      exact (hMarks c hMem).2 (List.contains_iff_mem.mp hMark)
    have hSame : Percent.encode (fun c => Percent.isPrintable c) text = text :=
      Percent.encode_eq_self fun c hMem => (hMarks c hMem).1
    rw [write, plainHost, if_neg (head?_ne_bracket hBracket)]
    exact (if_neg hNone).trans (by rw [hSame])
  | domain hKind => exact absurd rfl hKind
  | ipv4 hKind => exact absurd rfl hKind
  | ipv6 hAddress =>
    rw [write, plainHost, if_pos (by rw [Ipv6.write_eq]; rfl)]
    exact bracketed_write hAddress

/-! ## Hosts cut out of texts -/

/-- Whether a character is neither a slash nor the end of a path. -/
def outsidePath (kind : SchemeKind) (c : Char) : Bool := !(kind.isSlash c || endsPath c)

/-- The characters that end a host together with all that belongs to it. -/
def pathMarks : List Char := "/\\?#".toList

theorem outsidePath_of_notMem (kind : SchemeKind) {c : Char} (h : c ∉ pathMarks) :
    outsidePath kind c = true := by
  have hNe : ∀ d ∈ pathMarks, c ≠ d := fun d hMem hEq => h (hEq ▸ hMem)
  simp [outsidePath, SchemeKind.isSlash, endsPath, hNe '/' (by decide), hNe '\\' (by decide),
    hNe '?' (by decide), hNe '#' (by decide)]

/-- A character of a class is none of the marks that are not in it. -/
theorem notMem_of_class {P : Char → Bool} {marks : List Char} (hMarks : marks.any P = false)
    {c : Char} (h : P c = true) : c ∉ marks := fun hMem =>
  List.any_eq_false.mp hMarks c hMem h

theorem pathMarks_subset : pathMarks ⊆ hostMarks := by decide

/-- A character that does not set a host off. -/
theorem not_hostMark (kind : SchemeKind) {c : Char} (h : c ∉ hostMarks) :
    outsidePath kind c = true ∧ c ≠ ':' ∧ c ≠ '[' ∧ c ≠ ']' := by
  have hNe : ∀ d ∈ hostMarks, c ≠ d := fun d hMem hEq => h (hEq ▸ hMem)
  exact ⟨outsidePath_of_notMem kind fun hMem => h (pathMarks_subset hMem), hNe _ (by decide),
    hNe _ (by decide), hNe _ (by decide)⟩

/-- What may follow a host. -/
def EndsHost (kind : SchemeKind) (rest : List Char) : Prop :=
  ∀ c ∈ rest.head?, outsidePath kind c = false ∨ c = ':'

theorem spanHost_of_endsHost {kind : SchemeKind} {rest : List Char} (h : EndsHost kind rest) :
    spanHost kind false rest = ([], rest) := by
  cases rest with
  | nil => rfl
  | cons c rest =>
    have hEnds : (kind.isSlash c || endsPath c || (c == ':' && !false)) = true := by
      rcases h c rfl with hPath | rfl
      · rw [outsidePath, Bool.not_eq_false'] at hPath
        rw [hPath, Bool.true_or]
      · simp
    rw [spanHost, if_pos hEnds]

theorem spanHost_append {kind : SchemeKind} {name rest : List Char}
    (h : ∀ c ∈ name, c ∉ hostMarks) (hRest : EndsHost kind rest) :
    spanHost kind false (name ++ rest) = (name, rest) := by
  induction name with
  | nil => exact spanHost_of_endsHost hRest
  | cons c name ih =>
    obtain ⟨hHead, hTail⟩ := List.forall_mem_cons.mp h
    obtain ⟨hPath, hColon, hOpen, hClose⟩ := not_hostMark kind hHead
    rw [outsidePath, Bool.not_eq_true'] at hPath
    simp [spanHost, hPath, hColon, hOpen, hClose, ih hTail]

/-- Whether a character may stand between brackets. -/
def isInside (c : Char) : Bool := c == ':' || (hexValue? c).isSome

theorem isInside_of_mem_body {groups : List Nat} {c : Char} (h : c ∈ Ipv6.body groups) :
    isInside c = true := by
  rw [isInside, Bool.or_eq_true, beq_iff_eq]
  exact Ipv6.mem_body h

/-- A character between brackets. -/
theorem not_mark_of_isInside (kind : SchemeKind) {c : Char} (h : isInside c = true) :
    outsidePath kind c = true ∧ c ≠ '[' ∧ c ≠ ']' := by
  have hMarks : c ∉ "/\\?#[]".toList := notMem_of_class (by decide) h
  have hNe : ∀ d ∈ "/\\?#[]".toList, c ≠ d := fun d hMem hEq => hMarks (hEq ▸ hMem)
  exact ⟨outsidePath_of_notMem kind (notMem_of_class (by decide) h), hNe _ (by decide),
    hNe _ (by decide)⟩

/-- Between brackets a colon does not end a host. -/
theorem spanHost_inside {kind : SchemeKind} {body rest : List Char}
    (h : ∀ c ∈ body, isInside c = true) (hRest : EndsHost kind rest) :
    spanHost kind true (body ++ ']' :: rest) = (body ++ [']'], rest) := by
  induction body with
  | nil =>
    have hClose : (kind.isSlash ']' || endsPath ']' || (']' == ':' && !true)) = false := by
      cases kind <;> decide
    rw [List.nil_append, spanHost, if_neg (Bool.eq_false_iff.mp hClose)]
    simp [spanHost_of_endsHost hRest]
  | cons c body ih =>
    obtain ⟨hHead, hTail⟩ := List.forall_mem_cons.mp h
    obtain ⟨hPath, hOpen, hClose⟩ := not_mark_of_isInside kind hHead
    rw [outsidePath, Bool.not_eq_true'] at hPath
    simp [spanHost, hPath, hOpen, hClose, ih hTail]

/-- The characters of a host that is no address in brackets. -/
theorem notMem_hostMarks {kind : SchemeKind} {host : Host} (h : host.Written kind)
    (hName : ∀ groups, host ≠ .ipv6 groups) : ∀ c ∈ host.write, c ∉ hostMarks := by
  cases h with
  | name hMarks => exact fun c hMem hMark => (hMarks c hMem).2 (mem_plainMarks hMark)
  | domain _ hIsName => exact fun c hMem => notMem_hostMarks_of_admits (hIsName.admits hMem).1
  | @ipv4 _ address =>
    exact fun c hMem => notMem_hostMarks_of_admits ((Domain.isName_write address).admits hMem).1
  | @ipv6 _ groups => exact absurd rfl (hName groups)

/-- A host is cut out of the text that it is written in. -/
theorem spanHost_write {kind : SchemeKind} {host : Host} (h : host.Written kind) {rest : List Char}
    (hRest : EndsHost kind rest) :
    spanHost kind false (host.write ++ rest) = (host.write, rest) := by
  cases host with
  | ipv6 groups =>
    have hOpen : ¬ (kind.isSlash '[' || endsPath '[' || ('[' == ':' && !false)) = true := by
      cases kind <;> decide
    have hBody : ∀ c ∈ Ipv6.body groups, isInside c = true := fun _ => isInside_of_mem_body
    have hInside := spanHost_inside hBody hRest
    rw [write, Ipv6.write_eq, List.cons_append, List.append_assoc, List.singleton_append, spanHost,
      if_neg hOpen]
    simp [hInside]
  | name text => exact spanHost_append (notMem_hostMarks h fun _ => Host.noConfusion) hRest
  | ipv4 address => exact spanHost_append (notMem_hostMarks h fun _ => Host.noConfusion) hRest

/-- The characters that a host does not hold: those that end it together with all that belongs to
it, and the one that sets the user apart. -/
def serverMarks : List Char := "/\\?#@".toList

theorem outsidePath_of_notMem_serverMarks (kind : SchemeKind) {c : Char} (h : c ∉ serverMarks) :
    outsidePath kind c = true ∧ c ≠ '@' := by
  have hSubset : pathMarks ⊆ serverMarks := by decide
  have hUser : '@' ∈ serverMarks := by decide
  exact ⟨outsidePath_of_notMem kind fun hMem => h (hSubset hMem), fun hEq => h (hEq ▸ hUser)⟩

theorem notMem_serverMarks {kind : SchemeKind} {host : Host} (h : host.Written kind) {c : Char}
    (hMem : c ∈ host.write) : c ∉ serverMarks := by
  have hSubset : serverMarks ⊆ hostMarks := by decide
  cases host with
  | name text =>
    exact fun hMark => notMem_hostMarks h (fun _ => Host.noConfusion) c hMem (hSubset hMark)
  | ipv4 address =>
    exact fun hMark => notMem_hostMarks h (fun _ => Host.noConfusion) c hMem (hSubset hMark)
  | ipv6 groups =>
    rw [write, Ipv6.write_eq, ← List.cons_append, List.mem_append, List.mem_cons,
      List.mem_singleton] at hMem
    rcases hMem with (rfl | hMem) | rfl
    · decide
    · exact notMem_of_class (by decide) (isInside_of_mem_body hMem)
    · decide

theorem isPrintable_of_isName {name : List Char} (h : Domain.IsName name) {c : Char}
    (hMem : c ∈ name) : Percent.isPrintable c = true := by
  obtain ⟨hAdmits, hAscii⟩ := h.admits hMem
  have hAll : ∀ n < 128, Domain.isForbidden (Char.ofNat n).toNat = false →
      Percent.isPrintable (Char.ofNat n) = true := by decide
  exact of_ascii (P := fun c => Domain.isForbidden c.toNat = false → Percent.isPrintable c = true)
    hAll hAscii hAdmits.allowed

theorem isPrintable_of_isInside {c : Char} (h : isInside c = true) :
    Percent.isPrintable c = true := by
  rw [isInside, Bool.or_eq_true, beq_iff_eq] at h
  rcases h with rfl | hHex
  · decide
  · exact Percent.admitsEncoding_isPrintable c (by rw [Percent.isEncoding, hHex, Bool.or_true])

/-- Hosts are written in printable characters. -/
theorem isPrintable_of_mem_write {kind : SchemeKind} {host : Host} (h : host.Written kind)
    {c : Char} (hMem : c ∈ host.write) : Percent.isPrintable c = true := by
  cases h with
  | name hMarks => exact (hMarks c hMem).1
  | domain _ hName => exact isPrintable_of_isName hName hMem
  | @ipv4 _ address => exact isPrintable_of_isName (Domain.isName_write address) hMem
  | ipv6 =>
    rw [write, Ipv6.write_eq, ← List.cons_append, List.mem_append, List.mem_cons,
      List.mem_singleton] at hMem
    rcases hMem with (rfl | hMem) | rfl
    · decide
    · exact isPrintable_of_isInside (isInside_of_mem_body hMem)
    · decide

end Host

end TripPlanner.Url
