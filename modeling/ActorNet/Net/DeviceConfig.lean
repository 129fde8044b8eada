import Mathlib.Algebra.Group.Nat.Defs
import Mathlib.Data.List.Perm.Basic

/-!
# Configuration of network devices

`parse_config` reads a YAML map from the names of devices to their
configurations and validates it: keys are checked and converted for each device
by `decode`, then the map as a whole is checked. The YAML library is a parameter:
a document is the keys and the scalars of its nodes, in their order, and `Yaml`
the conversions of scalars. The order in which the unordered map of devices is
iterated is a parameter, too.

The last two checks of the map ask `all_of` the devices what is meant of any of
them; `parse_config_agrees_iff` says on which maps that makes no difference.
-/

namespace ActorNet.Net

/-- `ipv4_config`. -/
structure Ipv4Config where
  ip : String := ""
  netmask : String := ""
  gateway : String := ""
  dhcp : Bool := false
  deriving DecidableEq, Repr

/-- `hw_config`. -/
structure HwConfig where
  pciAddress : String := ""
  portIndex : Option (BitVec 32) := none
  lro : Bool := true
  tso : Bool := true
  ufo : Bool := true
  hwFc : Bool := true
  eventIndex : Bool := true
  csumOffload : Bool := true
  ringSize : Option (BitVec 32) := none
  deriving DecidableEq, Repr

/-- `device_config`. -/
structure DeviceConfig where
  ipCfg : Ipv4Config := {}
  hwCfg : HwConfig := {}
  deriving DecidableEq, Repr

namespace DeviceConfig

/-! ## Decoding a device -/

/-- The conversions `as<T>` of the scalars of a document; `none` is an exception
of the library. -/
structure Yaml (ν : Type) where
  asString : ν → Option String
  asUnsigned : ν → Option (BitVec 32)
  asBool : ν → Option Bool

/-- `config_exception` with its text, and the exception of a conversion. -/
inductive Failure where
  | config (what : String)
  | conversion
  deriving DecidableEq, Repr

/-- The list of supported config keys. -/
def configKeys : List String :=
  ["pci-address", "port-index", "ip", "gateway", "netmask", "dhcp", "lro", "tso", "ufo", "hw-fc",
    "event-index", "csum-offload", "ring-size"]

section

variable {ν : Type}

/-- The test for unsupported keys. -/
def checkKeys : List (String × ν) → Except Failure Unit
  | [] => .ok ()
  | (key, _) :: node =>
      if key ∈ configKeys then checkKeys node else .error (.config ("unsuppoted key " ++ key))

/-- `if (node[key]) field = node[key].as<T>()`. -/
def readKey {α : Type} (node : List (String × ν)) (key : String) (as : ν → Option α)
    (put : α → DeviceConfig → DeviceConfig) (cfg : DeviceConfig) : Except Failure DeviceConfig :=
  match node.lookup key with
  | none => .ok cfg
  | some scalar =>
      match as scalar with
      | none => .error .conversion
      | some value => .ok (put value cfg)

def setHw (f : HwConfig → HwConfig) (cfg : DeviceConfig) : DeviceConfig :=
  { cfg with hwCfg := f cfg.hwCfg }

def setIp (f : Ipv4Config → Ipv4Config) (cfg : DeviceConfig) : DeviceConfig :=
  { cfg with ipCfg := f cfg.ipCfg }

/-- `convert<device_config>::decode`, into a new configuration. -/
def decode (y : Yaml ν) (node : List (String × ν)) : Except Failure DeviceConfig := do
  checkKeys node
  let cfg ← readKey node "pci-address" y.asString
    (fun v => setHw fun hw => { hw with pciAddress := v }) {}
  let cfg ← readKey node "port-index" y.asUnsigned
    (fun v => setHw fun hw => { hw with portIndex := some v }) cfg
  let cfg ← readKey node "lro" y.asBool
    (fun v => setHw fun hw => { hw with lro := v }) cfg
  let cfg ← readKey node "tso" y.asBool
    (fun v => setHw fun hw => { hw with tso := v }) cfg
  let cfg ← readKey node "ufo" y.asBool
    (fun v => setHw fun hw => { hw with ufo := v }) cfg
  let cfg ← readKey node "hw-fc" y.asBool
    (fun v => setHw fun hw => { hw with hwFc := v }) cfg
  let cfg ← readKey node "event-index" y.asBool
    (fun v => setHw fun hw => { hw with eventIndex := v }) cfg
  let cfg ← readKey node "ring-size" y.asUnsigned
    (fun v => setHw fun hw => { hw with ringSize := some v }) cfg
  let cfg ← readKey node "ip" y.asString
    (fun v => setIp fun ip => { ip with ip := v }) cfg
  let cfg ← readKey node "netmask" y.asString
    (fun v => setIp fun ip => { ip with netmask := v }) cfg
  let cfg ← readKey node "gateway" y.asString
    (fun v => setIp fun ip => { ip with gateway := v }) cfg
  readKey node "dhcp" y.asBool
    (fun v => setIp fun ip => { ip with dhcp := v }) cfg

end

/-! ## The map of devices -/

/-- `device_configs`: its items, no two under one name. -/
abbrev Configs := List (String × DeviceConfig)

/-- `device_configs[name] = cfg`. -/
def assign (configs : Configs) (name : String) (cfg : DeviceConfig) : Configs :=
  if name ∈ configs.map Prod.fst then
    configs.map fun item => if item.1 = name then (name, cfg) else item
  else configs ++ [(name, cfg)]

section

variable {ν : Type}

/-- The loop over the document. -/
def load (y : Yaml ν) : List (String × List (String × ν)) → Configs → Except Failure Configs
  | [], configs => .ok configs
  | (name, node) :: doc, configs => do
      let cfg ← decode y node
      load y doc (assign configs name cfg)

/-- The loop over the devices that compares their kinds. -/
def checkKinds : Configs → (portIndexUsed pciAddressUsed : Bool) → Except Failure Unit
  | [], _, _ => .ok ()
  | (_, cfg) :: items, portIndexUsed, pciAddressUsed =>
      let portIndexUsed := portIndexUsed || cfg.hwCfg.portIndex.isSome
      let pciAddressUsed := pciAddressUsed || cfg.hwCfg.pciAddress != ""
      if portIndexUsed && pciAddressUsed then
        .error (.config "port_index and pci_address cannot be used together")
      else checkKinds items portIndexUsed pciAddressUsed

/-- The predicate of the first `all_of`. -/
def notStatic (p : String × DeviceConfig) : Bool :=
  !(!p.2.ipCfg.dhcp &&
    (p.2.ipCfg.ip != "" && p.2.ipCfg.gateway != "" && p.2.ipCfg.netmask != ""))

/-- The predicate of the second `all_of`. -/
def dhcpAndIp (p : String × DeviceConfig) : Bool :=
  p.2.ipCfg.dhcp &&
    !(p.2.ipCfg.ip == "" || p.2.ipCfg.gateway == "" || p.2.ipCfg.netmask == "")

/-- `parse_config`. -/
def parseConfig (y : Yaml ν) (iterate : Configs → Configs)
    (doc : List (String × List (String × ν))) : Except Failure Configs := do
  let deviceConfigs ← load y doc []
  let items := iterate deviceConfigs
  checkKinds items false false
  if items.all notStatic then
    .error (.config "when dhcp is off then all of ip, gateway, netmask has to be specified")
  else if items.all dhcpAndIp then .error (.config "dhcp and ip cannot be used together")
  else .ok deviceConfigs

end

/-! ## What decoding refuses -/

section

variable {ν : Type} {y : Yaml ν} {node : List (String × ν)}

theorem checkKeys_ok_iff : checkKeys node = .ok () ↔ ∀ item ∈ node, item.1 ∈ configKeys := by
  induction node with
  | nil => exact ⟨fun _ item none => absurd none List.not_mem_nil, fun _ => rfl⟩
  | cons item node ih =>
      rw [checkKeys, List.forall_mem_cons]
      split
      · rename_i supported
        rw [ih]
        exact ⟨fun rest => ⟨supported, rest⟩, fun both => both.2⟩
      · rename_i unsupported
        exact ⟨fun impossible => (nomatch impossible), fun both => absurd both.1 unsupported⟩

/-- A conversion does not fail with a `config_exception`. -/
theorem readKey_not_config {α : Type} {key : String} {as : ν → Option α}
    {put : α → DeviceConfig → DeviceConfig} {cfg : DeviceConfig} (what : String) :
    readKey node key as put cfg ≠ .error (.config what) := by
  unfold readKey
  intro failed
  split at failed
  · cases failed
  · split at failed
    · cases failed
    · cases failed

theorem bind_config {α : Type} {r : Except Failure DeviceConfig}
    {f : DeviceConfig → Except Failure α} {what : String}
    (first : r ≠ .error (.config what)) (rest : ∀ cfg, f cfg ≠ .error (.config what)) :
    r >>= f ≠ .error (.config what) := by
  cases r with
  | ok cfg => exact rest cfg
  | error failure =>
      intro failed
      cases failed
      exact first rfl

/-- With supported keys only, a device is decoded or a conversion fails. -/
theorem decode_supported (supported : ∀ item ∈ node, item.1 ∈ configKeys) (what : String) :
    decode y node ≠ .error (.config what) := by
  unfold decode
  rw [checkKeys_ok_iff.mpr supported]
  -- one conversion for each field, in the order of the source
  repeat' first
    | exact readKey_not_config what
    | refine bind_config (readKey_not_config what) fun cfg => ?_

/-- An unsupported key is refused before anything is converted. -/
theorem decode_unsupported {item : String × ν} (inside : item ∈ node)
    (unsupported : item.1 ∉ configKeys) : ∃ what, decode y node = .error (.config what) := by
  have refused : ∃ what, checkKeys node = .error (.config what) := by
    induction node with
    | nil => exact absurd inside List.not_mem_nil
    | cons first node ih =>
        rw [checkKeys]
        split
        · rename_i supported
          rcases List.mem_cons.mp inside with rfl | later
          · exact absurd supported unsupported
          · exact ih later
        · exact ⟨_, rfl⟩
  obtain ⟨what, failed⟩ := refused
  refine ⟨what, ?_⟩
  unfold decode
  rw [failed]
  rfl

end

/-! ## What the map is checked for -/

/-- All of `ip`, `gateway` and `netmask` are specified. -/
def Full (cfg : DeviceConfig) : Prop :=
  cfg.ipCfg.ip ≠ "" ∧ cfg.ipCfg.gateway ≠ "" ∧ cfg.ipCfg.netmask ≠ ""

instance (cfg : DeviceConfig) : Decidable cfg.Full :=
  inferInstanceAs (Decidable (_ ∧ _ ∧ _))

/-- A device without dhcp that has all addresses. -/
def Static (cfg : DeviceConfig) : Prop := cfg.ipCfg.dhcp = false ∧ cfg.Full

/-- A device with dhcp that does not have all addresses. -/
def Dynamic (cfg : DeviceConfig) : Prop := cfg.ipCfg.dhcp = true ∧ ¬cfg.Full

/-- A device uses a port index, and a device uses a PCI address. -/
def Clash (configs : Configs) : Prop :=
  (∃ item ∈ configs, item.2.hwCfg.portIndex.isSome = true) ∧
    ∃ item ∈ configs, item.2.hwCfg.pciAddress ≠ ""

instance (configs : Configs) : Decidable (Clash configs) :=
  inferInstanceAs (Decidable (_ ∧ _))

/-- The purpose of the validation. -/
def Consistent (configs : Configs) : Prop :=
  ¬Clash configs ∧ (∀ item ∈ configs, item.2.ipCfg.dhcp = false → item.2.Full) ∧
    ∀ item ∈ configs, item.2.ipCfg.dhcp = true → ¬item.2.Full

instance (configs : Configs) : Decidable (Consistent configs) :=
  inferInstanceAs (Decidable (_ ∧ _ ∧ _))

def usesPortIndex (p : String × DeviceConfig) : Bool := p.2.hwCfg.portIndex.isSome

def usesPciAddress (p : String × DeviceConfig) : Bool := p.2.hwCfg.pciAddress != ""

/-- The loop over the devices throws just if both kinds are used, by what came
before or by one of them. -/
theorem checkKinds_eq (items : Configs) (port pci : Bool) (apart : (port && pci) = false) :
    checkKinds items port pci =
      if (port || items.any usesPortIndex) && (pci || items.any usesPciAddress) then
        .error (.config "port_index and pci_address cannot be used together")
      else .ok () := by
  induction items generalizing port pci with
  | nil => simp [checkKinds, apart]
  | cons item items ih =>
      obtain ⟨name, cfg⟩ := item
      have port_ : (port || (usesPortIndex (name, cfg) || items.any usesPortIndex)) =
          ((port || cfg.hwCfg.portIndex.isSome) || items.any usesPortIndex) :=
        (Bool.or_assoc _ _ _).symm
      have pci_ : (pci || (usesPciAddress (name, cfg) || items.any usesPciAddress)) =
          ((pci || cfg.hwCfg.pciAddress != "") || items.any usesPciAddress) :=
        (Bool.or_assoc _ _ _).symm
      rw [List.any_cons, List.any_cons, port_, pci_, checkKinds]
      split
      · rename_i both
        rw [Bool.and_eq_true] at both
        rw [both.1, both.2, Bool.true_or, Bool.true_or]
        rfl
      · rename_i apart'
        exact ih _ _ (Bool.eq_false_iff.mpr apart')

theorem any_kinds_iff (items : Configs) :
    (items.any usesPortIndex && items.any usesPciAddress) = true ↔ Clash items := by
  rw [Bool.and_eq_true, List.any_eq_true, List.any_eq_true]
  unfold Clash usesPciAddress
  simp only [bne_iff_ne]
  exact Iff.rfl

theorem clash_perm {configs items : Configs} (same : items.Perm configs) :
    Clash items ↔ Clash configs := by
  unfold Clash
  simp only [same.mem_iff]

theorem notStatic_iff (p : String × DeviceConfig) : notStatic p = true ↔ ¬p.2.Static := by
  unfold notStatic Static Full
  rw [Bool.not_eq_true', ← Bool.not_eq_true, not_iff_not]
  simp [and_assoc]

theorem dhcpAndIp_iff (p : String × DeviceConfig) :
    dhcpAndIp p = true ↔ p.2.ipCfg.dhcp = true ∧ p.2.Full := by
  unfold dhcpAndIp Full
  simp [and_assoc]

/-! ## What is accepted -/

section

variable {ν : Type} {y : Yaml ν} {iterate : Configs → Configs}
  {doc : List (String × List (String × ν))} {configs : Configs}

/-- A decoded map is returned if kinds do not clash and some device is static,
whatever the others are; anything else is a `config_exception`. -/
theorem parseConfig_cases (loaded : load y doc [] = .ok configs)
    (order : (iterate configs).Perm configs) :
    (parseConfig y iterate doc = .ok configs ∧ ¬Clash configs ∧
      ∃ item ∈ configs, item.2.Static) ∨
    ((∃ what, parseConfig y iterate doc = .error (.config what)) ∧
      (Clash configs ∨ ∀ item ∈ configs, ¬item.2.Static)) := by
  have kinds := checkKinds_eq (iterate configs) false false rfl
  rw [Bool.false_or, Bool.false_or] at kinds
  have clash_iff := (any_kinds_iff (iterate configs)).trans (clash_perm order)
  have run : parseConfig y iterate doc = (checkKinds (iterate configs) false false >>= fun _ =>
      if (iterate configs).all notStatic then
        .error (.config "when dhcp is off then all of ip, gateway, netmask has to be specified")
      else if (iterate configs).all dhcpAndIp then
        .error (.config "dhcp and ip cannot be used together")
      else .ok configs) := by
    unfold parseConfig
    rw [loaded]
    rfl
  rw [run, kinds]
  by_cases clash : Clash configs
  · rw [if_pos (clash_iff.mpr clash)]
    exact .inr ⟨⟨_, rfl⟩, .inl clash⟩
  · rw [if_neg (fun both => clash (clash_iff.mp both))]
    show ((if (iterate configs).all notStatic then _ else _) = _ ∧ _) ∨
      (∃ what, (if (iterate configs).all notStatic then _ else _) = _) ∧ _
    split
    · rename_i none_static
      right
      refine ⟨⟨_, rfl⟩, .inr ?_⟩
      intro item inside
      apply (notStatic_iff item).mp
      exact List.all_eq_true.mp none_static item (order.mem_iff.mpr inside)
    · rename_i some_static
      rw [List.all_eq_true, not_forall] at some_static
      obtain ⟨item, holds⟩ := some_static
      obtain ⟨inside, static⟩ := Classical.not_imp.mp holds
      have static := not_not.mp (fun other => static ((notStatic_iff item).mpr other))
      -- a static device is not one with dhcp, so the second `all_of` is false
      have second : (iterate configs).all dhcpAndIp ≠ true := by
        intro all
        have dhcp := ((dhcpAndIp_iff item).mp (List.all_eq_true.mp all item inside)).1
        exact absurd static.1 (by rw [dhcp]; decide)
      rw [if_neg second]
      exact .inl ⟨rfl, clash, item, order.mem_iff.mp inside, static⟩

/-- What the validation promises of a map of devices: it is returned just if it is
consistent, and refused with a `config_exception` otherwise. -/
def Agrees (y : Yaml ν) (iterate : Configs → Configs) (doc : List (String × List (String × ν)))
    (configs : Configs) : Prop :=
  (parseConfig y iterate doc = .ok configs ↔ Consistent configs) ∧
    (¬Consistent configs → ∃ what, parseConfig y iterate doc = .error (.config what))

/-- The first kind of map on which it fails: all devices are dynamic. -/
def AllDynamic (configs : Configs) : Prop := ∀ item ∈ configs, item.2.Dynamic

/-- The second kind: a static device stands in for one that is at fault. -/
def Masked (configs : Configs) : Prop :=
  (∃ item ∈ configs, item.2.Static) ∧
    ∃ item ∈ configs, ¬item.2.Static ∧ ¬item.2.Dynamic

theorem consistent_iff (configs : Configs) :
    Consistent configs ↔
      ¬Clash configs ∧ ∀ item ∈ configs, item.2.Static ∨ item.2.Dynamic := by
  unfold Consistent
  apply and_congr_right
  intro _
  constructor
  · rintro ⟨static, dynamic⟩ item inside
    cases dhcp : item.2.ipCfg.dhcp with
    | false => exact .inl ⟨dhcp, static item inside dhcp⟩
    | true => exact .inr ⟨dhcp, dynamic item inside dhcp⟩
  · intro each
    refine ⟨fun item inside dhcp => ?_, fun item inside dhcp => ?_⟩
    · rcases each item inside with static | dynamic
      · exact static.2
      · exact absurd (dhcp.symm.trans dynamic.1) (by decide)
    · rcases each item inside with static | dynamic
      · exact absurd (static.1.symm.trans dhcp) (by decide)
      · exact dynamic.2

theorem Static.not_dynamic {cfg : DeviceConfig} (static : cfg.Static) : ¬cfg.Dynamic :=
  fun dynamic => absurd (static.1.symm.trans dynamic.1) (by decide)

/-- The validation does what it promises just on the maps in which the kinds
clash, and on those that are neither all dynamic nor at fault behind a static
device. -/
theorem parse_config_agrees_iff (loaded : load y doc [] = .ok configs)
    (order : (iterate configs).Perm configs) :
    Agrees y iterate doc configs ↔
      Clash configs ∨ (¬AllDynamic configs ∧ ¬Masked configs) := by
  unfold Agrees
  rw [consistent_iff]
  rcases parseConfig_cases loaded order with
    ⟨accepted, apart, item, inside, static⟩ | ⟨⟨what, refused⟩, reason⟩
  · -- accepted: right if no device is at fault
    constructor
    · intro agrees
      obtain ⟨-, each⟩ := agrees.1.mp accepted
      refine .inr ⟨fun all => static.not_dynamic (all item inside), ?_⟩
      rintro ⟨-, other, there, notStatic, notDynamic⟩
      exact (each other there).elim notStatic notDynamic
    · rintro (clash | ⟨-, unmasked⟩)
      · exact absurd clash apart
      · have each : ∀ item ∈ configs, item.2.Static ∨ item.2.Dynamic := by
          intro other there
          by_contra neither
          exact unmasked ⟨⟨item, inside, static⟩, other, there, not_or.mp neither⟩
        exact ⟨⟨fun _ => ⟨apart, each⟩, fun _ => accepted⟩,
          fun inconsistent => absurd ⟨apart, each⟩ inconsistent⟩
  · -- refused: right if the map is not consistent
    have exact_ : ((parseConfig y iterate doc = .ok configs ↔
        ¬Clash configs ∧ ∀ item ∈ configs, item.2.Static ∨ item.2.Dynamic) ∧
        (¬(¬Clash configs ∧ ∀ item ∈ configs, item.2.Static ∨ item.2.Dynamic) →
          ∃ what, parseConfig y iterate doc = .error (.config what))) ↔
        ¬(¬Clash configs ∧ ∀ item ∈ configs, item.2.Static ∨ item.2.Dynamic) := by
      rw [refused]
      constructor
      · intro agrees consistent
        cases agrees.1.mpr consistent
      · intro inconsistent
        exact ⟨⟨fun impossible => (nomatch impossible),
          fun consistent => absurd consistent inconsistent⟩, fun _ => ⟨what, rfl⟩⟩
    rw [exact_]
    constructor
    · intro inconsistent
      by_cases clash : Clash configs
      · exact .inl clash
      · have none_static := reason.resolve_left clash
        refine .inr ⟨fun all => inconsistent ⟨clash, fun item inside => .inr (all item inside)⟩, ?_⟩
        rintro ⟨⟨item, inside, static⟩, -⟩
        exact none_static item inside static
    · rintro (clash | ⟨notAll, -⟩) ⟨apart, each⟩
      · exact apart clash
      · have none_static := reason.resolve_left apart
        apply notAll
        intro item inside
        exact (each item inside).resolve_left (none_static item inside)

end

/-! ## Documents with plain scalars -/

/-- Scalars as they are written, with the two words for truth values. -/
def plain : Yaml String where
  asString := some
  asUnsigned text := (text.toNat?).bind fun n => if n < 2 ^ 32 then some (BitVec.ofNat 32 n) else none
  asBool text := if text = "true" then some true else if text = "false" then some false else none

/-- A device with addresses and one with dhcp. -/
theorem parse_config_agrees_iff_two :
    ∃ configs, load plain
        [("eth0", [("pci-address", "0000:06:00.0"), ("ip", "192.168.100.10"),
          ("gateway", "192.168.100.1"), ("netmask", "255.255.255.0")]),
          ("eth1", [("pci-address", "0000:06:00.1"), ("dhcp", "true")])] [] = .ok configs ∧
      configs ≠ [] ∧
      (Agrees plain List.reverse
        [("eth0", [("pci-address", "0000:06:00.0"), ("ip", "192.168.100.10"),
          ("gateway", "192.168.100.1"), ("netmask", "255.255.255.0")]),
          ("eth1", [("pci-address", "0000:06:00.1"), ("dhcp", "true")])] configs ↔
        Clash configs ∨ (¬AllDynamic configs ∧ ¬Masked configs)) := by
  refine ⟨_, rfl, ?_, parse_config_agrees_iff rfl (List.reverse_perm _)⟩
  exact List.cons_ne_nil _ _

/-- A single device with dhcp is consistent, but refused. A device without gateway
is not, but accepted behind one that has all addresses. -/
theorem only_dhcp_refused :
    (∃ configs, load plain [("eth0", [("dhcp", "true")])] [] = .ok configs ∧
      Consistent configs ∧
      parseConfig plain id [("eth0", [("dhcp", "true")])] =
        .error (.config "when dhcp is off then all of ip, gateway, netmask has to be specified") ∧
      ¬Agrees plain id [("eth0", [("dhcp", "true")])] configs) ∧
    ∃ configs, load plain [("eth0", [("ip", "10.0.0.1"), ("gateway", "10.0.0.9"),
        ("netmask", "255.0.0.0")]), ("eth1", [("ip", "10.0.0.2")])] [] = .ok configs ∧
      ¬Consistent configs ∧
      parseConfig plain id [("eth0", [("ip", "10.0.0.1"), ("gateway", "10.0.0.9"),
        ("netmask", "255.0.0.0")]), ("eth1", [("ip", "10.0.0.2")])] = .ok configs := by
  refine ⟨⟨_, rfl, by decide, rfl, ?_⟩, _, rfl, by decide, rfl⟩
  intro agrees
  cases agrees.1.mpr (by decide)

end DeviceConfig

end ActorNet.Net
