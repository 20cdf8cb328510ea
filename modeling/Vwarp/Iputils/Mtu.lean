import Vwarp.Device.Uapi

/-!
# The system MTU table

`getSystemMTU`, which reads the MTU of each interface from `ip link show` on
Linux (`netsh` on Windows, `ifconfig` on macOS), and `detectNetworkMTU`, which
prefers those values to the MTU `net.Interfaces` reports. The command output
is an argument, `none` when the command fails.

On Linux the name is the first field holding a `:`, and in an interface line
of `ip link` that is the index field `IDX:`. So the table maps the interface
indices to the MTUs and holds no interface name, and `detectNetworkMTU` falls
back to Go's value for every interface whose name is not a numeral.
-/

namespace Iputils

open GoText NetText

/-- `strings.Contains`. -/
def containsText (s sub : List Char) : Bool := decide (sub <:+: s)

/-- `strings.Fields`: the runs of characters between white space. -/
def fields (s : List Char) : List (List Char) := (s.splitOnP isSpace).filter (· ≠ [])

/-- `strings.TrimSuffix`. -/
def trimSuffix (s suffix : List Char) : List Char :=
  if suffix <:+ s then s.take (s.length - suffix.length) else s

/-- The value of `runtime.GOOS` the switch tells apart. -/
inductive GOOS where
  | windows
  | linux
  | darwin
  | other
  deriving DecidableEq, Repr

/-- The MTU after the first `mtu` field whose next field `Atoi` reads. -/
def mtuAfter : List (List Char) → Option Int
  | part :: next :: rest =>
    if part = "mtu".toList ∧ (atoi next).2 = none then some (atoi next).1
    else mtuAfter (next :: rest)
  | _ => none

/-- One line of `netsh interface ipv4 show subinterfaces`, the `i`-th: after the
three header lines, an MTU in the first field and the name in the last. -/
def windowsLine (mtuMap : List Char → Option Int) (i : Nat) (line : List Char) :
    List Char → Option Int :=
  if i < 3 ∨ trimSpace line = [] then mtuMap
  else
    match fields line with
    | first :: second :: more =>
      match atoi first with
      | (mtu, none) => Function.update mtuMap ((second :: more).getLast (by simp)) (some mtu)
      | _ => mtuMap
    | _ => mtuMap

/-- One line of `ip link show`. -/
def linuxLine (mtuMap : List Char → Option Int) (line : List Char) : List Char → Option Int :=
  if containsText line "mtu".toList ∧ containsText line [':'] then
    let parts := fields line
    -- the first field holding a colon names the interface
    let interfaceName :=
      match parts.find? fun part => containsText part [':'] with
      | some part => trimSuffix part [':']
      | none => []
    let mtu := (mtuAfter parts).getD 0
    if interfaceName ≠ [] ∧ 0 < mtu then Function.update mtuMap interfaceName (some mtu)
    else mtuMap
  else mtuMap

/-- One line of `ifconfig`, with the interface of the last header line. -/
def darwinLine (st : (List Char → Option Int) × List Char) (line : List Char) :
    (List Char → Option Int) × List Char :=
  let line := trimSpace line
  let currentInterface :=
    if ¬[' '] <+: line ∧ containsText line [':'] then
      match fields line with
      | first :: _ => trimSuffix first [':']
      | [] => st.2
    else st.2
  if currentInterface ≠ [] ∧ containsText line "mtu".toList then
    match mtuAfter (fields line) with
    | some mtu => (Function.update st.1 currentInterface (some mtu), currentInterface)
    | none => (st.1, currentInterface)
  else (st.1, currentInterface)

/-- `getSystemMTU`: the table from interface names to MTUs. -/
def getSystemMTU (goos : GOOS) (output : Option (List Char)) : List Char → Option Int :=
  match output with
  | none => fun _ => none
  | some out =>
    let lines := out.splitOn '\n'
    match goos with
    | .windows => lines.zipIdx.foldl (fun m li => windowsLine m li.2 li.1) fun _ => none
    | .linux => lines.foldl linuxLine fun _ => none
    | .darwin => (lines.foldl darwinLine ((fun _ => none), [])).1
    | .other => fun _ => none

/-! ## `detectNetworkMTU` -/

/-- What `detectNetworkMTU` reads of a `net.Interface`; `addrs` is the number
of addresses `Addrs` returns, or its error. -/
structure NetInterface where
  name : List Char
  mtu : Int
  up : Bool
  loopback : Bool
  addrs : Except String Nat

/-- The running minimum, maximum, count and report of the interface loop. -/
structure MtuScan where
  minMTU : Int := 9999
  maxMTU : Int := 0
  activeCount : Nat := 0
  interfaceInfo : List (List Char) := []

/-- One interface of the loop: loopback, down and address-less interfaces are
skipped, and the system value, when the table has one, replaces Go's. -/
def scanInterface (systemMTU : List Char → Option Int) (s : MtuScan) (iface : NetInterface) :
    MtuScan :=
  if iface.loopback ∨ iface.up = false then s
  else
    match iface.addrs with
    | .error _ => s
    | .ok 0 => s
    | .ok _ =>
      let mtuValue := (systemMTU iface.name).getD iface.mtu
      if mtuValue ≤ 0 then s
      else
        let source := if (systemMTU iface.name).isSome then "system" else "go"
        -- `%s:%d(%s)`, the value being positive
        { minMTU := if mtuValue < s.minMTU then mtuValue else s.minMTU
          maxMTU := if mtuValue > s.maxMTU then mtuValue else s.maxMTU
          activeCount := s.activeCount + 1
          interfaceInfo := s.interfaceInfo ++
            [iface.name ++ ':' :: itoa mtuValue.toNat ++ '(' :: source.toList ++ [')']] }

/-- What `detectNetworkMTU` returns: the smallest and largest MTU, the report
lines and the error. -/
structure MtuReport where
  minMTU : Int
  maxMTU : Int
  interfaceInfo : List (List Char)
  err : Option String
  deriving DecidableEq, Repr

/-- `detectNetworkMTU` on the table `getSystemMTU` returned and the result of
`net.Interfaces`. -/
def detectNetworkMTU (systemMTU : List Char → Option Int)
    (interfaces : Except String (List NetInterface)) : MtuReport :=
  match interfaces with
  | .error e => ⟨1396, 1396, ["fallback".toList], some ("failed to get network interfaces: " ++ e)⟩
  | .ok ifaces =>
    let s := ifaces.foldl (scanInterface systemMTU) {}
    if s.activeCount = 0 then
      ⟨1396, 1396, ["no_active_interfaces".toList], some "no active network interfaces found"⟩
    else ⟨s.minMTU, s.maxMTU, s.interfaceInfo, none⟩

/-! ## Reading fields -/

/-- Everything about `fields` follows from the split at a white-space character. -/
theorem fields_append_space {c : Char} (hc : isSpace c = true) (x y : List Char) :
    fields (x ++ c :: y) = fields x ++ fields y := by
  unfold fields
  rw [List.splitOnP_append_cons x y hc, List.filter_append]

theorem fields_single {w : List Char} (hne : w ≠ []) (h : ∀ c ∈ w, isSpace c = false) :
    fields w = [w] := by
  rw [fields, List.splitOnP_eq_singleton h]
  simp [hne]

/-- Fields without white space, joined by single spaces, are read back. -/
theorem fields_intercalate (fs : List (List Char))
    (h : ∀ f ∈ fs, f ≠ [] ∧ ∀ c ∈ f, isSpace c = false) :
    fields ([' '].intercalate fs) = fs := by
  induction fs with
  | nil => rfl
  | cons f fs ih =>
    obtain ⟨hne, hf⟩ := h f List.mem_cons_self
    have hrest : ∀ g ∈ fs, g ≠ [] ∧ ∀ c ∈ g, isSpace c = false :=
      fun g hg => h g (List.mem_cons_of_mem f hg)
    cases fs with
    | nil => rw [List.intercalate_singleton, fields_single hne hf]
    | cons g gs =>
      rw [List.intercalate_cons_cons, List.append_assoc, List.singleton_append,
        fields_append_space rfl, fields_single hne hf, ih hrest, List.singleton_append]

theorem isSpace_of_isDigit {c : Char} (h : c.isDigit = true) : isSpace c = false := by
  simp only [Char.isDigit, Bool.and_eq_true, decide_eq_true_eq] at h
  obtain ⟨h0, h9⟩ := h
  have hlo : 48 ≤ c.toNat := h0
  have hhi : c.toNat ≤ 57 := h9
  cases hs : isSpace c with
  | false => rfl
  | true =>
    simp only [isSpace, Bool.or_eq_true, decide_eq_true_eq, Bool.and_eq_true, ← Char.toNat_inj,
      Char.reduceToNat] at hs
    omega

theorem infix_intercalate_of_mem {x : List Char} {fs : List (List Char)} (h : x ∈ fs) :
    x <:+: [' '].intercalate fs := by
  induction fs with
  | nil => simp at h
  | cons f fs ih =>
    cases fs with
    | nil =>
      obtain rfl := List.mem_singleton.mp h
      simpa only [List.intercalate_singleton] using List.infix_refl x
    | cons g gs =>
      rw [List.intercalate_cons_cons]
      rcases List.mem_cons.mp h with rfl | h
      · exact List.infix_append_left.trans (List.infix_append_left)
      · exact (ih h).trans (List.suffix_append _ _).isInfix

/-! ## `ip link show` -/

/-- A line of `ip link show` output. -/
inductive LinkLine where
  /-- `IDX: NAME: <FLAGS> mtu M` and more fields; `NAME` may be `name@peer`. -/
  | iface (idx : Nat) (name flags : List Char) (mtu : Nat) (more : List (List Char))
  /-- A continuation line, such as `link/ether ...` or `altname ...`. -/
  | cont (text : List Char)

namespace LinkLine

/-- The fields of an interface line. -/
def ifaceFields (idx : Nat) (name flags : List Char) (mtu : Nat) (more : List (List Char)) :
    List (List Char) :=
  [itoa idx ++ [':'], name ++ [':'], '<' :: flags ++ ['>'], "mtu".toList, itoa mtu] ++ more

def text : LinkLine → List Char
  | iface idx name flags mtu more => [' '].intercalate (ifaceFields idx name flags mtu more)
  | cont text => text

/-- Fields without white space and an MTU `Atoi` reads; a continuation line
without the pair of `mtu` and `:` the parser looks for. -/
def WellFormed : LinkLine → Prop
  | iface _ name flags mtu more =>
    (∀ c ∈ name, isSpace c = false) ∧ (∀ c ∈ flags, isSpace c = false) ∧ 0 < mtu ∧
      mtu < 2 ^ 63 ∧ ∀ f ∈ more, f ≠ [] ∧ ∀ c ∈ f, isSpace c = false
  | cont text =>
    '\n' ∉ text ∧ (containsText text "mtu".toList = false ∨ containsText text [':'] = false)

instance : DecidablePred WellFormed := fun l =>
  have _ : ∀ s : List Char, Decidable (∀ c ∈ s, isSpace c = false) := fun s => List.decidableBAll _ s
  match l with
  | iface _ _ _ _ _ => inferInstanceAs (Decidable (_ ∧ _))
  | cont _ => inferInstanceAs (Decidable (_ ∧ _))

/-- The entry an interface line puts in the table, keyed as the code keys it. -/
def entry : LinkLine → Option (List Char × Int)
  | iface idx _ _ mtu _ => some (itoa idx, mtu)
  | cont _ => none

end LinkLine

/-- `ip link show` output: the lines, each ended by a newline. -/
def linkOutput (ls : List LinkLine) : List Char := (ls.map LinkLine.text).flatMap (· ++ ['\n'])

theorem mem_intercalate_space {c : Char} {fs : List (List Char)}
    (h : c ∈ [' '].intercalate fs) : c = ' ' ∨ ∃ f ∈ fs, c ∈ f := by
  induction fs with
  | nil => simp at h
  | cons f fs ih =>
    cases fs with
    | nil =>
      rw [List.intercalate_singleton] at h
      exact .inr ⟨f, List.mem_cons_self, h⟩
    | cons g gs =>
      rw [List.intercalate_cons_cons, List.mem_append, List.mem_append] at h
      rcases h with (h | h) | h
      · exact .inr ⟨f, List.mem_cons_self, h⟩
      · exact .inl (List.mem_singleton.mp h)
      · rcases ih h with h | ⟨f', hf', hc⟩
        · exact .inl h
        · exact .inr ⟨f', List.mem_cons_of_mem f hf', hc⟩

section Lines

variable {idx mtu : Nat} {name flags : List Char} {more : List (List Char)}

theorem isSpace_itoa (n : Nat) : ∀ c ∈ itoa n, isSpace c = false :=
  fun c hc => isSpace_of_isDigit (itoaLoop_digits _ _ c hc)

theorem itoa_ne_nil (n : Nat) : itoa n ≠ [] := by
  obtain ⟨c, rest, h, -⟩ := itoa_cons n
  rw [h]
  exact List.cons_ne_nil c rest

/-- The fields of a well-formed interface line hold no white space. -/
theorem ifaceFields_plain (hwf : (LinkLine.iface idx name flags mtu more).WellFormed) :
    ∀ f ∈ LinkLine.ifaceFields idx name flags mtu more,
      f ≠ [] ∧ ∀ c ∈ f, isSpace c = false := by
  obtain ⟨hname, hflags, -, -, hmore⟩ := hwf
  intro f hf
  simp only [LinkLine.ifaceFields, List.cons_append, List.nil_append, List.mem_cons] at hf
  rcases hf with rfl | rfl | rfl | rfl | rfl | hf
  · exact ⟨by simp, List.forall_mem_append.mpr ⟨isSpace_itoa idx, List.forall_mem_singleton.mpr rfl⟩⟩
  · exact ⟨by simp, List.forall_mem_append.mpr ⟨hname, List.forall_mem_singleton.mpr rfl⟩⟩
  · refine ⟨by simp, List.forall_mem_cons.mpr ⟨rfl, ?_⟩⟩
    exact List.forall_mem_append.mpr ⟨hflags, List.forall_mem_singleton.mpr rfl⟩
  · exact ⟨by simp, @of_decide_eq_true _ (List.decidableBAll _ _) rfl⟩
  · exact ⟨itoa_ne_nil mtu, isSpace_itoa mtu⟩
  · exact hmore f hf

/-- A well-formed line holds no newline. -/
theorem newline_not_mem_text {l : LinkLine} (hwf : l.WellFormed) : '\n' ∉ l.text := by
  cases l with
  | iface idx name flags mtu more =>
    intro hmem
    rcases mem_intercalate_space hmem with h | ⟨f, hf, hc⟩
    · exact absurd h (by decide)
    · have hspace := (ifaceFields_plain hwf f hf).2 _ hc
      exact absurd hspace (by decide)
  | cont text => exact hwf.1

/-- `mtuAfter` skips the index, name and flags fields to the `mtu` field. -/
theorem mtuAfter_ifaceFields (hlt : mtu < 2 ^ 63) :
    mtuAfter (LinkLine.ifaceFields idx name flags mtu more) = some (mtu : Int) := by
  have hcolon : ∀ x : List Char, x ++ [':'] ≠ "mtu".toList := by
    intro x h
    have hlast := congrArg List.getLast? h
    simp at hlast
  have hflags : '<' :: (flags ++ ['>']) ≠ "mtu".toList := by
    intro h
    have hhead := congrArg List.head? h
    simp at hhead
  simp only [LinkLine.ifaceFields, List.cons_append, List.nil_append, mtuAfter, hcolon,
    hflags, false_and, if_false, atoi_itoa hlt, and_self, if_true]

/-- An interface line puts its MTU in the table under its index. -/
theorem linuxLine_iface (m : List Char → Option Int)
    (hwf : (LinkLine.iface idx name flags mtu more).WellFormed) :
    linuxLine m (LinkLine.iface idx name flags mtu more).text =
      Function.update m (itoa idx) (some (mtu : Int)) := by
  have hfields := fields_intercalate _ (ifaceFields_plain hwf)
  have hidxField : itoa idx ++ [':'] ∈ LinkLine.ifaceFields idx name flags mtu more := by
    simp [LinkLine.ifaceFields]
  have hmtu : containsText (LinkLine.iface idx name flags mtu more).text "mtu".toList = true := by
    simp only [containsText, decide_eq_true_eq]
    exact infix_intercalate_of_mem (by simp [LinkLine.ifaceFields])
  have hcolon : containsText (LinkLine.iface idx name flags mtu more).text [':'] = true := by
    simp only [containsText, decide_eq_true_eq]
    exact (List.suffix_append _ _).isInfix.trans (infix_intercalate_of_mem hidxField)
  have hfind : (LinkLine.ifaceFields idx name flags mtu more).find?
      (fun part => containsText part [':']) = some (itoa idx ++ [':']) := by
    apply List.find?_cons_of_pos
    simp only [containsText, decide_eq_true_eq]
    exact (List.suffix_append _ _).isInfix
  have htrim : trimSuffix (itoa idx ++ [':']) [':'] = itoa idx := by
    rw [trimSuffix, if_pos (List.suffix_append _ _)]
    simp
  obtain ⟨-, -, hpos, hlt, -⟩ := hwf
  unfold linuxLine
  rw [if_pos ⟨hmtu, hcolon⟩]
  simp only [LinkLine.text, hfields, hfind, htrim, mtuAfter_ifaceFields hlt, Option.getD_some]
  rw [if_pos ⟨itoa_ne_nil idx, by exact_mod_cast hpos⟩]

/-- A continuation line leaves the table as it is. -/
theorem linuxLine_cont (m : List Char → Option Int) {text : List Char}
    (hwf : (LinkLine.cont text).WellFormed) : linuxLine m text = m := by
  have hskip : ¬(containsText text "mtu".toList = true ∧ containsText text [':'] = true) := by
    rintro ⟨hm, hc⟩
    rcases hwf.2 with h | h
    · rw [hm] at h
      contradiction
    · rw [hc] at h
      contradiction
  rw [linuxLine, if_neg hskip]

end Lines

/-! ## The whole table -/

/-- Setting the key of an entry, as `mtuMap[name] = mtu` does. -/
def setEntry (m : List Char → Option Int) (e : List Char × Int) : List Char → Option Int :=
  Function.update m e.1 (some e.2)

theorem foldl_update_of_forall_ne (es : List (List Char × Int)) (m : List Char → Option Int)
    {k : List Char} (hk : ∀ e ∈ es, e.1 ≠ k) :
    es.foldl setEntry m k = m k := by
  induction es generalizing m with
  | nil => rfl
  | cons e es ih =>
    obtain ⟨he, hrest⟩ := List.forall_mem_cons.mp hk
    rw [List.foldl_cons, ih _ hrest, setEntry, Function.update_of_ne he.symm]

/-- With distinct keys, every entry is found in the table. -/
theorem foldl_update_of_mem {es : List (List Char × Int)} (hnd : (es.map Prod.fst).Nodup)
    (m : List Char → Option Int) {e : List Char × Int} (he : e ∈ es) :
    es.foldl setEntry m e.1 = some e.2 := by
  induction es generalizing m with
  | nil => simp at he
  | cons e' es ih =>
    rw [List.map_cons, List.nodup_cons] at hnd
    rw [List.foldl_cons]
    rcases List.mem_cons.mp he with rfl | he
    · have hne : ∀ e'' ∈ es, e''.1 ≠ e.1 := fun e'' he'' heq =>
        hnd.1 (heq ▸ List.mem_map_of_mem he'')
      rw [foldl_update_of_forall_ne es _ hne, setEntry, Function.update_self]
    · exact ih hnd.2 _ he

/-- Line by line, the Linux parser sets the entries of the interface lines. -/
theorem foldl_linuxLine (ls : List LinkLine) (hwf : ∀ l ∈ ls, l.WellFormed)
    (m : List Char → Option Int) :
    (ls.map LinkLine.text).foldl linuxLine m = (ls.filterMap LinkLine.entry).foldl setEntry m := by
  induction ls generalizing m with
  | nil => rfl
  | cons l ls ih =>
    obtain ⟨hl, hrest⟩ := List.forall_mem_cons.mp hwf
    cases l with
    | iface idx name flags mtu more =>
      rw [List.map_cons, List.foldl_cons, linuxLine_iface m hl, ih hrest]
      rfl
    | cont text =>
      rw [List.map_cons, List.foldl_cons, LinkLine.text, linuxLine_cont m hl, ih hrest]
      rfl

/-- On `ip link show` output, the Linux table is filled with the entries of the
interface lines in order. -/
theorem getSystemMTU_linux (ls : List LinkLine) (hwf : ∀ l ∈ ls, l.WellFormed) :
    getSystemMTU .linux (some (linkOutput ls)) =
      (ls.filterMap LinkLine.entry).foldl setEntry fun _ => none := by
  have hlines : (linkOutput ls).splitOn '\n' = ls.map LinkLine.text ++ [[]] := by
    apply Uapi.splitOn_lines
    intro t ht
    obtain ⟨l, hl, rfl⟩ := List.mem_map.mp ht
    exact newline_not_mem_text (hwf l hl)
  have hlast : ∀ m, linuxLine m [] = m := fun m => by simp [linuxLine, containsText]
  simp only [getSystemMTU, hlines, List.foldl_append, List.foldl_cons, List.foldl_nil, hlast]
  exact foldl_linuxLine ls hwf _

/-! ## `detectNetworkMTU` on the table -/

theorem scanInterface_congr {t t' : List Char → Option Int} (s : MtuScan) {iface : NetInterface}
    (h : t iface.name = t' iface.name) : scanInterface t s iface = scanInterface t' s iface := by
  simp only [scanInterface, h]

/-- `detectNetworkMTU` reads the table only at the names of the interfaces. -/
theorem detectNetworkMTU_congr {t t' : List Char → Option Int} (ifaces : List NetInterface)
    (h : ∀ i ∈ ifaces, t i.name = t' i.name) :
    detectNetworkMTU t (.ok ifaces) = detectNetworkMTU t' (.ok ifaces) := by
  have hscan : ifaces.foldl (scanInterface t) {} = ifaces.foldl (scanInterface t') {} :=
    List.foldl_ext _ _ _ fun s i hi => scanInterface_congr s (h i hi)
  simp only [detectNetworkMTU, hscan]

/-- Every key of the Linux table is the index of an interface line. -/
theorem linux_table_key {ls : List LinkLine} (hwf : ∀ l ∈ ls, l.WellFormed) {key : List Char}
    (hkey : getSystemMTU .linux (some (linkOutput ls)) key ≠ none) :
    ∃ idx name flags mtu more, LinkLine.iface idx name flags mtu more ∈ ls ∧ key = itoa idx := by
  rw [getSystemMTU_linux ls hwf] at hkey
  by_contra hnone
  push Not at hnone
  apply hkey
  apply foldl_update_of_forall_ne
  intro e he heq
  obtain ⟨l, hl, hentry⟩ := List.mem_filterMap.mp he
  cases l with
  | iface idx name flags mtu more =>
    simp only [LinkLine.entry, Option.some.injEq] at hentry
    subst hentry
    exact hnone idx name flags mtu more hl heq.symm
  | cont text => simp [LinkLine.entry] at hentry

/-- On `ip link show` output, `getSystemMTU` keys the MTU of each interface line
by its index, not by its name: with distinct indices, each index maps to its
line's MTU, every key is an index, and `detectNetworkMTU` computes the same as
with an empty table for interfaces whose names are not numerals. -/
theorem linux_mtu_keyed_by_index (ls : List LinkLine) (hwf : ∀ l ∈ ls, l.WellFormed)
    (hidx : ((ls.filterMap LinkLine.entry).map Prod.fst).Nodup) :
    (∀ idx name flags mtu more, LinkLine.iface idx name flags mtu more ∈ ls →
      getSystemMTU .linux (some (linkOutput ls)) (itoa idx) = some (mtu : Int)) ∧
    (∀ key, getSystemMTU .linux (some (linkOutput ls)) key ≠ none →
      ∃ idx name flags mtu more, LinkLine.iface idx name flags mtu more ∈ ls ∧ key = itoa idx) ∧
    (∀ ifaces : List NetInterface, (∀ i ∈ ifaces, ∃ c ∈ i.name, c.isDigit = false) →
      detectNetworkMTU (getSystemMTU .linux (some (linkOutput ls))) (.ok ifaces) =
        detectNetworkMTU (fun _ => none) (.ok ifaces)) := by
  refine ⟨?_, fun key hkey => linux_table_key hwf hkey, ?_⟩
  · intro idx name flags mtu more hl
    rw [getSystemMTU_linux ls hwf]
    exact foldl_update_of_mem hidx _ (List.mem_filterMap.mpr ⟨_, hl, rfl⟩)
  · intro ifaces hnames
    apply detectNetworkMTU_congr
    intro i hi
    by_contra hsome
    obtain ⟨idx, -, -, -, -, -, hkey⟩ := linux_table_key hwf hsome
    obtain ⟨c, hc, hdigit⟩ := hnames i hi
    rw [hkey] at hc
    rw [itoaLoop_digits _ _ c hc] at hdigit
    contradiction

/-- The loopback and an Ethernet interface as `ip link show` prints them: the
table has `1`, not `lo`, and `detectNetworkMTU` reports Go's value for `eth0`. -/
theorem linux_mtu_two_links :
    let ls := [LinkLine.iface 1 ['l', 'o'] [] 65536 [], .iface 2 ['e', 't', 'h', '0'] [] 1500 []]
    let eth0 : NetInterface := ⟨['e', 't', 'h', '0'], 9000, true, false, .ok 1⟩
    getSystemMTU .linux (some (linkOutput ls)) ['1'] = some 65536 ∧
      getSystemMTU .linux (some (linkOutput ls)) ['l', 'o'] = none ∧
      detectNetworkMTU (getSystemMTU .linux (some (linkOutput ls))) (.ok [eth0]) =
        detectNetworkMTU (fun _ => none) (.ok [eth0]) := by
  intro ls eth0
  have hwf : ∀ l ∈ ls, l.WellFormed := by decide
  obtain ⟨hvalue, hkeys, hdetect⟩ := linux_mtu_keyed_by_index ls hwf (by decide)
  have hname : ∀ i ∈ [eth0], ∃ c ∈ i.name, c.isDigit = false := by
    intro i hi
    rw [List.mem_singleton.mp hi]
    exact ⟨'e', List.mem_cons_self, rfl⟩
  refine ⟨hvalue 1 _ _ 65536 _ List.mem_cons_self, ?_, hdetect [eth0] hname⟩
  by_contra hsome
  obtain ⟨idx, -, -, -, -, -, hkey⟩ := hkeys _ hsome
  have hdigit := itoaLoop_digits _ idx 'l' (hkey ▸ List.mem_cons_self)
  contradiction

end Iputils
