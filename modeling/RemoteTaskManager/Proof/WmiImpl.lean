import RemoteTaskManager.Impl.Win32Process

/-!
# What a connection does

The constructor of `wmi_state_t` has four outcomes (`ctor_init_fails`,
`ctor_security_fails`, `ctor_create_fails`, `ctor_ok`), each with the calls it
makes. On an object built, `connect` and `query` make their calls and touch no
initialisation, and on a machine that answers the listing is what `transform`
makes of the enumeration (`getWmiWin32Process_fst`).
-/

namespace RTM.Proof.WmiImpl

open RTM.Impl

/-! ## The constructor -/

/-- After an initialisation of `sec_res` that succeeds, or was made before. -/
def secured (M : Machine) (s : Com) : Com :=
  if s.secRes = none then
    { s.log (.coInitializeSecurity M.coInitializeSecurity) with secRes := some M.coInitializeSecurity }
  else s

/-- Whether the initialisation of `sec_res` fails. -/
def SecurityFails (M : Machine) (s : Com) : Prop :=
  s.secRes = none ∧ failed M.coInitializeSecurity = true

instance (M : Machine) (s : Com) : Decidable (SecurityFails M s) :=
  inferInstanceAs (Decidable (_ ∧ _))

section

variable {M : Machine} {s : Com}

theorem secRes_ok (h : ¬ SecurityFails M s) : WmiStateT.secRes M s = (.ok (), secured M s) := by
  rw [WmiStateT.secRes, ExecM.bind_of_ok (ExecM.get_apply s), secured]
  by_cases hs : s.secRes = none
  · have hf : failed M.coInitializeSecurity = false := by simpa [SecurityFails, hs] using h
    rw [if_pos hs, if_pos hs, ExecM.bind_of_ok (ExecM.modify_apply _ s), hf]
    rfl
  · rw [if_neg hs, if_neg hs]
    rfl

theorem secRes_fails (h : SecurityFails M s) :
    WmiStateT.secRes M s = (.threw (.wmiError "Failed to initialize security" M.coInitializeSecurity),
      s.log (.coInitializeSecurity M.coInitializeSecurity)) := by
  obtain ⟨hs, hf⟩ := h
  rw [WmiStateT.secRes, ExecM.bind_of_ok (ExecM.get_apply s), if_pos hs,
    ExecM.bind_of_ok (ExecM.modify_apply _ s), hf]
  rfl

theorem coCtor_ok (h : failed M.coInitializeEx = false) :
    WmiStateCo.ctor M s = (.ok ⟨true⟩, s.log (.coInitializeEx M.coInitializeEx)) := by
  rw [WmiStateCo.ctor, ExecM.bind_of_ok (ExecM.modify_apply _ s), h]
  rfl

theorem coCtor_fails (h : failed M.coInitializeEx = true) :
    WmiStateCo.ctor M s = (.threw (.wmiError "Failed to init COM library" M.coInitializeEx),
      s.log (.coInitializeEx M.coInitializeEx)) := by
  rw [WmiStateCo.ctor, ExecM.bind_of_ok (ExecM.modify_apply _ s), h]
  rfl

theorem ctor_init_fails (h : failed M.coInitializeEx = true) :
    WmiStateT.ctor M s = (.threw (.wmiError "Failed to init COM library" M.coInitializeEx),
      s.log (.coInitializeEx M.coInitializeEx)) := by
  rw [WmiStateT.ctor, ExecM.bind_of_threw (coCtor_fails h)]

/-- The member `init` is destroyed. -/
theorem ctor_security_fails (hi : failed M.coInitializeEx = false)
    (h : SecurityFails M (s.log (.coInitializeEx M.coInitializeEx))) :
    WmiStateT.ctor M s =
      (.threw (.wmiError "Failed to initialize security" M.coInitializeSecurity),
        ((s.log (.coInitializeEx M.coInitializeEx)).log
          (.coInitializeSecurity M.coInitializeSecurity)).log .coUninit) := by
  rw [WmiStateT.ctor, ExecM.bind_of_ok (coCtor_ok hi), ExecM.construct, WmiStateT.ctorBody,
    ExecM.bind_apply, ExecM.outer_apply, secRes_fails h]
  rfl

/-- The thread is uninitialised by hand, and again by the member `init`. -/
theorem ctor_create_fails (hi : failed M.coInitializeEx = false)
    (hs : ¬ SecurityFails M (s.log (.coInitializeEx M.coInitializeEx)))
    (h : failed M.coCreateInstance = true) :
    WmiStateT.ctor M s =
      (.threw (.wmiError "Failed to create IWbemLocator object" M.coCreateInstance),
        (((secured M (s.log (.coInitializeEx M.coInitializeEx))).log
          (.coCreateInstance M.coCreateInstance)).log .coUninit).log .coUninit) := by
  rw [WmiStateT.ctor, ExecM.bind_of_ok (coCtor_ok hi), ExecM.construct, WmiStateT.ctorBody,
    ExecM.bind_apply, ExecM.outer_apply, secRes_ok hs, h]
  rfl

theorem ctor_ok (hi : failed M.coInitializeEx = false)
    (hs : ¬ SecurityFails M (s.log (.coInitializeEx M.coInitializeEx)))
    (h : failed M.coCreateInstance = false) :
    WmiStateT.ctor M s = (.ok ⟨true, false, ⟨true⟩⟩,
      (secured M (s.log (.coInitializeEx M.coInitializeEx))).log
        (.coCreateInstance M.coCreateInstance)) := by
  rw [WmiStateT.ctor, ExecM.bind_of_ok (coCtor_ok hi), ExecM.construct, WmiStateT.ctorBody,
    ExecM.bind_apply, ExecM.outer_apply, secRes_ok hs, h]
  rfl

end

/-! ## A machine that answers -/

/-- The namespace and the query of `get_wmi_win32_process`. -/
def root : WString := wide "ROOT\\CIMV2"
def allProcesses : WString := wide "SELECT * FROM Win32_Process"

/-- Every call succeeds, and the query gives the enumeration. -/
structure Connects (M : Machine) (machine : WString) (e : Enumeration) : Prop where
  init : failed M.coInitializeEx = false
  security : failed M.coInitializeSecurity = false
  create : failed M.coCreateInstance = false
  server : failed (M.connectServer (WmiStateT.serverPath root machine)) = false
  blanket : failed M.coSetProxyBlanket = false
  query : ∃ hres, failed hres = false ∧ M.execQuery allProcesses = (hres, some e)

section

variable {P : Platform} {M : Machine} {machine : WString} {e : Enumeration}

/-- The calls of a connection made. -/
def connected (M : Machine) (machine : WString) (s : Com) : Com :=
  (s.log (.connectServer (WmiStateT.serverPath root machine)
    (M.connectServer (WmiStateT.serverPath root machine)))).log
      (.coSetProxyBlanket M.coSetProxyBlanket)

theorem connect_ok {o : WmiStateT} {s : Com} (ho : o.locator = true)
    (hs : failed (M.connectServer (WmiStateT.serverPath root machine)) = false)
    (hb : failed M.coSetProxyBlanket = false) :
    WmiStateT.connect M root machine (o, s) =
      (.ok (), ({ o with service := true }, connected M machine s)) := by
  rw [WmiStateT.connect, ExecM.bind_of_ok (ExecM.get_apply _)]
  simp only [ho, Bool.true_eq_false, ↓reduceIte, ExecM.bind_apply, ExecM.outer_apply,
    ExecM.modify_apply, hs, Bool.false_eq_true, ExecM.modifyLocal_apply, WmiStateT.setProxyBlanket,
    hb, ExecM.pure_apply, connected]

/-- What the machine lists, the connection made. -/
theorem listProcesses_fst {o : WmiStateT} {s : Com} (hM : Connects M machine e)
    (ho : o.locator = true) :
    ∃ x, listProcesses P M machine (o, s) = (transform (makeWmiProcess P) e, x) := by
  obtain ⟨hres, hf, hq⟩ := hM.query
  rw [listProcesses, ← root, ← allProcesses, ExecM.bind_of_ok (connect_ok ho hM.server hM.blanket),
    WmiStateT.query]
  simp only [hq, ExecM.bind_apply, ExecM.get_apply, Bool.true_eq_false, ↓reduceIte,
    ExecM.outer_apply, ExecM.modify_apply, hf, Bool.false_eq_true, ExecM.pure_apply,
    ExecM.withLocal_apply, ExecM.lift_apply]
  cases transform (makeWmiProcess P) e <;> exact ⟨_, rfl⟩

/-- What is listed is what the enumeration gives. -/
theorem getWmiWin32Process_fst (hM : Connects M machine e) (s : Com) :
    (getWmiWin32Process P M machine s).1 = transform (makeWmiProcess P) e := by
  have hs : ¬ SecurityFails M (s.log (.coInitializeEx M.coInitializeEx)) := by
    simp [SecurityFails, hM.security]
  obtain ⟨x, hx⟩ := listProcesses_fst (P := P) (o := ⟨true, false, ⟨true⟩⟩)
    (s := (secured M (s.log (.coInitializeEx M.coInitializeEx))).log
      (.coCreateInstance M.coCreateInstance)) hM rfl
  rw [getWmiWin32Process, ExecM.bind_of_ok (ctor_ok hM.init hs hM.create), ExecM.withLocal_apply, hx]
  cases transform (makeWmiProcess P) e <;> rfl

end

end RTM.Proof.WmiImpl
