import CustomLinuxOs.Foundations.Bits
import CustomLinuxOs.Filesystem.DirOperations
import CustomLinuxOs.Terminal.Tty

/-!
Processes: `process.c`, `execute.c`, `halt.c`, `tasks.c`, `loader.c`, the part of `paging.c` on
user pages, and the entry and exit of interrupts in `irq.S`.

* `Kernel`: the globals of these files.  A PCB is named by the 8 kB slot it lies in, and a saved
  context by a number that no context before it has; what a context overwrites in memory is not
  modelled.
* `pushPcb`, `popPcb`, `addUserPage`, `freeUserPage`: the two bitmaps.
* `execute`, `halt`, `switchProcess`: `none` where the source overruns a buffer on its stack, or has
  no process to work on.
* `irqEntry`, `irqExit`: saving a context and resuming one.
* `KernelEvent`, `kernelStep`: interrupts and system calls as the steps of a system.
-/

namespace CustomLinuxOs

def MAX_PROCESSES : ℕ := 6
def MAX_ACTIVE_TASKS : ℕ := 3
def FN_BUF_SIZE : ℕ := 33
def FOUR_MB : ℕ := 0x400000
def KERNEL_MEM_END : ℕ := 0x800000
def PROCESS_STACK_SIZE : ℕ := 0x2000
def USER_MEM_PAGE_INDEX : ℕ := 32
def USER_MEM_END : UInt32 := (FOUR_MB * (USER_MEM_PAGE_INDEX + 1)).toUInt32
def PROGRAM_START : ℕ := 0x08048000
def USER_CS : UInt32 := 0x23
def USER_DS : UInt32 := 0x2b

/-! ### Data -/

/-- A `pcb_t *`. -/
inductive PcbPtr where
  | null
  | kernelMemEnd
  | slot (n : ℕ)
  deriving DecidableEq, Repr

/-- The slot a pointer is to, if it is to a PCB. -/
def PcbPtr.slot? : PcbPtr → Option ℕ
  | slot n => some n
  | _ => none

/-- What `fd_table` points to: the table of the kernel, or that of a PCB. -/
inductive FdTablePtr where
  | kernel
  | pcb (p : PcbPtr)
  deriving DecidableEq, Repr

/-- `hw_context_t`; `parent` is the number of a context. -/
structure HwContext where
  parent : ℕ
  eax : UInt32
  ebx : UInt32
  ecx : UInt32
  edx : UInt32
  esi : UInt32
  edi : UInt32
  ebp : UInt32
  irqNum : UInt32
  errCode : UInt32
  ret : UInt32
  cs : UInt32
  eflags : UInt32
  esp : UInt32
  ss : UInt32

/-- `pcb_t`. -/
structure Pcb where
  processFdTable : FdTable
  pid : UInt32
  pcbNum : ℕ
  parent : PcbPtr
  child : PcbPtr
  userPhysicalMemBlockNum : ℕ
  command : List UInt8
  context : ℕ

/-- The globals. -/
structure Kernel where
  pcbs : ℕ → Pcb
  currentPcb : PcbPtr
  pcbBitmap : BitVec 32
  nextPid : UInt32
  userPages : BitVec 32
  /-- `page_base_addr` of the page directory entry of user memory -/
  userPage : ℕ
  /-- `tss.esp0` -/
  esp0 : ℕ
  fdTable : FdTablePtr
  kernelFdTable : FdTable
  currentTasks : ℕ → PcbPtr
  currentTask : ℕ
  globalContext : ℕ
  contexts : ℕ → HwContext
  /-- the number of contexts made so far -/
  contextCount : ℕ
  fs : Fs
  tty : Tty
  /-- user memory, by physical block of 4 MB and offset -/
  userMemory : ℕ → ℕ → UInt8

/-- Changing one PCB. -/
def Kernel.modifyPcb (k : Kernel) (n : ℕ) (f : Pcb → Pcb) : Kernel :=
  { k with pcbs := Function.update k.pcbs n (f (k.pcbs n)) }

/-- `context->eax = v`. -/
def Kernel.setEax (k : Kernel) (c : ℕ) (v : UInt32) : Kernel :=
  { k with contexts := Function.update k.contexts c { k.contexts c with eax := v } }

/-! ### User pages -/

/-- `set_user_page`; the field has ten bits. -/
def setUserPage (k : Kernel) (pageNum : ℕ) : Kernel := { k with userPage := pageNum % 1024 }

/-- `add_user_page`, with the page it returns. -/
def addUserPage (k : Kernel) : ℕ × Kernel :=
  let i := trailingOnes 32 k.userPages 0
  (i, setUserPage { k with userPages := k.userPages ||| BitVec.twoPow 32 i } i)

/-- `free_user_page`. -/
def freeUserPage (k : Kernel) (pageNum : ℕ) : Kernel :=
  { k with userPages := k.userPages ^^^ BitVec.twoPow 32 pageNum }

/-! ### Process control blocks -/

/-- `setup_fdtable`. -/
def setupFdtable (fds : FdTable) : FdTable :=
  Function.update (Function.update fds 0 ⟨some .tty, 0, 0, 0⟩) 1 ⟨some .tty, 0, 0, 0⟩

/-- `push_pcb`; `none` when it returns `-1`. -/
def pushPcb (k : Kernel) : Option Kernel :=
  let low := k.pcbBitmap &&& -k.pcbBitmap
  if low ≥ 1#32 <<< MAX_PROCESSES then none
  else
    let pcbNum := log2Loop 32 low 0
    let newPcb : Pcb :=
      { processFdTable := setupFdtable fun _ => Fd.zero
        pid := k.nextPid
        pcbNum := pcbNum
        parent :=
          if k.currentPcb ≠ .kernelMemEnd ∧ k.currentPcb ≠ .null then k.currentPcb
          else .kernelMemEnd
        child := .kernelMemEnd
        userPhysicalMemBlockNum := 0
        command := []
        context := 0 }
    let pcbs := Function.update k.pcbs pcbNum newPcb
    some { k with
      pcbBitmap := k.pcbBitmap &&& ~~~low
      nextPid := k.nextPid + 1
      pcbs :=
        match k.currentPcb with
        | .slot n => Function.update pcbs n { pcbs n with child := .slot pcbNum }
        | _ => pcbs
      currentPcb := .slot pcbNum
      fdTable := .pcb (.slot pcbNum) }

/-- `pop_pcb`. -/
def popPcb (k : Kernel) : Kernel :=
  match k.currentPcb with
  | .slot n =>
      { k with
        pcbBitmap := k.pcbBitmap ||| BitVec.twoPow 32 (k.pcbs n).pcbNum
        currentPcb := (k.pcbs n).parent }
  | _ => k

/-- The end of the kernel stack of a slot. -/
def stackTop (n : ℕ) : ℕ := KERNEL_MEM_END - PROCESS_STACK_SIZE * (n + 1)

/-- `update_tss`, for the PCB in slot `n`. -/
def updateTss (k : Kernel) (n : ℕ) : Kernel := { k with esp0 := stackTop (k.pcbs n).pcbNum }

/-! ### The loader -/

/-- `ELVEN_HEAD`. -/
def ELVEN_HEAD : List UInt8 := [0x7f, 0x45, 0x4c, 0x46]

/-- `check_header`. -/
def checkHeader (fs : Fs) (d : Dentry) : Bool :=
  d.fileType == FILE_TYPE_REGULAR && readData fs d.inodeNum.toNat 0 4 == ELVEN_HEAD

/-- `is_executable_file`. -/
def isExecutableFile (fs : Fs) (filename : CString) : Bool :=
  match readDentryByName fs filename with
  | none => false
  | some d => d.fileType == FILE_TYPE_REGULAR && checkHeader fs d

/-- Storing bytes to the block that user memory is mapped to. -/
def storeUser (mem : ℕ → ℕ → UInt8) (block offset : ℕ) (bytes : List UInt8) : ℕ → ℕ → UInt8 :=
  Function.update mem block fun o =>
    if offset ≤ o ∧ o < offset + bytes.length then bytes.getD (o - offset) 0 else mem block o

/-- The loop of `load_program`, from byte `i` of the file on; the first argument bounds the
passes. -/
def loadLoop (fs : Fs) (inode block : ℕ) : ℕ → UInt32 → (ℕ → ℕ → UInt8) → ℕ → ℕ → UInt8
  | 0, _, mem => mem
  | k + 1, i, mem =>
      let buf := readData fs inode i 128
      if buf = [] then mem
      else
        loadLoop fs inode block k (i + buf.length.toUInt32)
          (storeUser mem block (PROGRAM_START - FOUR_MB * USER_MEM_PAGE_INDEX + i.toNat) buf)

/-- `load_program`, and whether it succeeds. -/
def loadProgram (k : Kernel) (filename : CString) : Bool × Kernel :=
  match readDentryByName k.fs filename with
  | some d =>
      if isExecutableFile k.fs filename then
        let inode := d.inodeNum.toNat
        (true, { k with
          userMemory := loadLoop k.fs inode k.userPage ((k.fs.inodes inode).length.toNat + 1) 0
            k.userMemory })
      else (false, k)
  | none => (false, k)

/-- `get_start`. -/
def getStart (k : Kernel) : UInt32 :=
  let byte (i : ℕ) : UInt32 :=
    (k.userMemory k.userPage
      (PROGRAM_START - FOUR_MB * USER_MEM_PAGE_INDEX + 24 + i)).toUInt32
  byte 0 ||| byte 1 <<< 8 ||| byte 2 <<< 16 ||| byte 3 <<< 24

/-! ### Starting a program -/

/-- `add_user_page`, `push_pcb` and `load_program`, with the page, and whether all has gone
well. -/
def startProgram (k : Kernel) (filename : CString) : ℕ × Bool × Kernel :=
  let r := addUserPage k
  match pushPcb r.2 with
  | none => (r.1, false, r.2)
  | some k => (r.1, loadProgram k filename)

/-- The initial context of the PCB in slot `n`.  `stale` is what lies in its place; only the part
that `iret` pops is written.  `flags` are those of the kernel. -/
def setUpContext (k : Kernel) (n : ℕ) (stale : HwContext) (flags : UInt32) : Kernel :=
  let context : HwContext :=
    { stale with
      ss := USER_DS, esp := USER_MEM_END, eflags := flags, cs := USER_CS, ret := getStart k }
  { k.modifyPcb n fun pcb => { pcb with context := k.contextCount } with
    contexts := Function.update k.contexts k.contextCount context
    contextCount := k.contextCount + 1 }

/-- `filename` and `save_command` of `execute`; `none` if one of them is overrun. -/
def parseCommand (command : CString) : Option (CString × CString) :=
  let b := (command.val.takeWhile (· == SPACE)).length
  let saveCommand := command.val.drop b
  let filename := (saveCommand.takeWhile (· != SPACE)).take (FN_BUF_SIZE - b)
  if filename.length < FN_BUF_SIZE ∧ saveCommand.length ≤ MAX_TERMINAL_BUF_SIZE then
    some
      (⟨filename, fun h => command.prop
        (List.mem_of_mem_drop (List.takeWhile_subset _ (List.mem_of_mem_take h)))⟩,
      ⟨saveCommand, fun h => command.prop (List.mem_of_mem_drop h)⟩)
  else none

/-- `execute`. -/
def execute (k : Kernel) (command : CString) (stale : HwContext) (flags : UInt32) :
    Option (ℤ × Kernel) :=
  match parseCommand command with
  | none => none
  | some (filename, saveCommand) =>
      if ¬ isExecutableFile k.fs filename then some (SYSCALL_ERROR, k)
      else
        match startProgram k filename with
        | (userMemoryBlock, false, k) =>
            let k :=
              match k.currentPcb with
              | .slot n => setUserPage k (k.pcbs n).userPhysicalMemBlockNum
              | _ => k
            some (SYSCALL_ERROR, freeUserPage k userMemoryBlock)
        | (userMemoryBlock, true, k) =>
            match k.currentPcb with
            | .slot n =>
                let k := updateTss (k.modifyPcb n fun pcb =>
                  { pcb with command := saveCommand.val }) n
                let k := k.modifyPcb n fun pcb =>
                  { pcb with userPhysicalMemBlockNum := userMemoryBlock }
                let k := setUpContext k n stale flags
                some (0,
                  if k.currentTasks k.currentTask = (k.pcbs n).parent then
                    { k with
                      currentTasks := Function.update k.currentTasks k.currentTask k.currentPcb }
                  else k)
            | _ => none

/-- `halt`; the `close` operations of the four tables do nothing. -/
def halt (k : Kernel) (status : UInt8) : Option (ℤ × Kernel) :=
  match k.currentPcb with
  | .slot n =>
      let k :=
        match (k.pcbs n).parent with
        | .slot p => setUserPage k (k.pcbs p).userPhysicalMemBlockNum
        | _ => k
      let k :=
        if k.currentTasks k.currentTask = .slot n then
          { k with
            currentTasks := Function.update k.currentTasks k.currentTask (k.pcbs n).parent }
        else k
      let k := popPcb (freeUserPage k (k.pcbs n).userPhysicalMemBlockNum)
      let k :=
        match k.currentPcb with
        | .slot p => (updateTss k p).setEax (k.pcbs p).context status.toUInt32
        | _ => k
      some (0, { k with fdTable := .pcb k.currentPcb })
  | _ => none

/-- The name `shell`. -/
def shellName : CString := ⟨[0x73, 0x68, 0x65, 0x6c, 0x6c], by decide⟩

/-- The part of `switch_process` that starts a shell. -/
def startShell (k : Kernel) (taskId : ℕ) (stale : HwContext) (flags : UInt32) : ℤ × Kernel :=
  if ¬ isExecutableFile k.fs shellName then (SYSCALL_ERROR, k)
  else
    match startProgram k shellName with
    | (userMemoryBlock, false, k) => (SYSCALL_ERROR, freeUserPage k userMemoryBlock)
    | (userMemoryBlock, true, k) =>
        match k.currentPcb with
        | .slot n =>
            let k := k.modifyPcb n fun pcb =>
              { pcb with command := shellName.val, userPhysicalMemBlockNum := userMemoryBlock }
            let k := setUpContext (updateTss k n) n stale flags
            (0, { k with currentTasks := Function.update k.currentTasks taskId k.currentPcb })
        | _ => (SYSCALL_ERROR, k)

/-- `switch_process`. -/
def switchProcess (k : Kernel) (taskId : ℕ) (stale : HwContext) (flags : UInt32) : ℤ × Kernel :=
  if k.currentTask = taskId then (0, k)
  else
    let k : Kernel :=
      { k with
        currentTask := taskId
        currentPcb := k.currentTasks taskId
        tty := changeProcessScreen k.tty taskId }
    match k.currentPcb with
    | .slot n =>
        let k := updateTss (setUserPage k (k.pcbs n).userPhysicalMemBlockNum) n
        (0, { k with fdTable := .pcb (.slot n) })
    | _ => startShell k taskId stale flags

/-! ### Interrupts -/

/-- The entry of `do_irq_main`: the context is put on the chain of the current process. -/
def irqEntry (k : Kernel) (context : HwContext) : Option Kernel :=
  let save (parent : ℕ) (k : Kernel) : Kernel :=
    { k with
      contexts := Function.update k.contexts k.contextCount { context with parent := parent }
      contextCount := k.contextCount + 1 }
  match k.currentPcb with
  | .null => none
  | .kernelMemEnd => some (save k.globalContext { k with globalContext := k.contextCount })
  | .slot n =>
      some (save (k.pcbs n).context
        (k.modifyPcb n fun pcb => { pcb with context := k.contextCount }))

/-- The context `do_irq_main` returns. -/
def returnContext (k : Kernel) : Option ℕ :=
  match k.currentPcb with
  | .null => none
  | .kernelMemEnd => some k.globalContext
  | .slot n => some (k.pcbs n).context

/-- `swap_context`. -/
def swapContext (k : Kernel) (context : ℕ) : Kernel :=
  match k.currentPcb with
  | .slot n => k.modifyPcb n fun pcb => { pcb with context := context }
  | _ => { k with globalContext := context }

/-- The rest of `do_irq_common`: its stack pointer is at the context to resume, whose first field
is the argument of `swap_context`. -/
def irqExit (k : Kernel) : Option Kernel :=
  (returnContext k).map fun c => swapContext k (k.contexts c).parent

/-! ### Events -/

/-- The system calls a process makes. -/
inductive Syscall where
  | execute (command : CString) (stale : HwContext) (flags : UInt32)
  | halt (status : UInt8)
  | open (counter : UInt32) (filename : CString)
  | close (fd : ℤ)

/-- A call on the descriptors in the current table. -/
def withFdTable (k : Kernel) (f : FdTable → ℤ × FdTable) : Option (ℤ × Kernel) :=
  match k.fdTable with
  | .kernel =>
      let r := f k.kernelFdTable
      some (r.1, { k with kernelFdTable := r.2 })
  | .pcb (.slot n) =>
      let r := f (k.pcbs n).processFdTable
      some (r.1, k.modifyPcb n fun pcb => { pcb with processFdTable := r.2 })
  | .pcb _ => none

/-- The function of a system call. -/
def Syscall.run (k : Kernel) : Syscall → Option (ℤ × Kernel)
  | .execute command stale flags => CustomLinuxOs.execute k command stale flags
  | .halt status => CustomLinuxOs.halt k status
  | .open counter filename => withFdTable k fun fds => openCall counter k.fs fds filename
  | .close fd => withFdTable k fun fds => closeCall fds fd

/-- Interrupts and system calls. -/
inductive KernelEvent where
  /-- an interrupt is taken -/
  | irq (context : HwContext)
  /-- the scheduler switches, in an interrupt -/
  | switchProcess (taskId : ℕ) (stale : HwContext) (flags : UInt32)
  /-- a process makes a system call, which is carried out -/
  | syscall (context : HwContext) (call : Syscall)
  /-- the end of an interrupt or of a system call -/
  | iret

/-- A system call of a process, up to the value that it returns. -/
def trap (k : Kernel) (context : HwContext) (call : Syscall) : Option (ℤ × Kernel) :=
  match k.currentPcb with
  | .slot _ => (irqEntry k context).bind call.run
  | _ => none

/-- One event. -/
def kernelStep (k : Kernel) : KernelEvent → Option Kernel
  | .irq context => irqEntry k context
  | .switchProcess taskId stale flags =>
      if taskId < MAX_ACTIVE_TASKS then some (switchProcess k taskId stale flags).2 else none
  | .syscall context call =>
      (trap k context call).map fun r => r.2.setEax k.contextCount (UInt32.ofInt r.1)
  | .iret => irqExit k

/-- The state `entry` leaves: no process has been started. -/
structure Kernel.Booted (k : Kernel) : Prop where
  userPages : k.userPages = 0x3#32
  pcbBitmap : k.pcbBitmap = 0xffffffff#32
  currentPcb : k.currentPcb = .kernelMemEnd
  currentTasks : ∀ t, k.currentTasks t = .null
  currentTask : k.currentTask = 0
  contextCount : k.contextCount = 0

/-- A context in zeroed memory. -/
def HwContext.zero : HwContext := ⟨0, 0, 0, 0, 0, 0, 0, 0, 0, 0, 0, 0, 0, 0, 0⟩

/-- The kernel after booting, with zeroed memory. -/
def Kernel.boot (fs : Fs) : Kernel where
  pcbs := fun _ => ⟨fun _ => Fd.zero, 0, 0, .null, .null, 0, [], 0⟩
  currentPcb := .kernelMemEnd
  pcbBitmap := 0xffffffff#32
  nextPid := 0
  userPages := 0x3#32
  userPage := 0
  esp0 := 0
  fdTable := .kernel
  kernelFdTable := fun _ => Fd.zero
  currentTasks := fun _ => .null
  currentTask := 0
  globalContext := 0
  contexts := fun _ => HwContext.zero
  contextCount := 0
  fs := fs
  tty := Tty.boot
  userMemory := fun _ _ => 0

lemma Kernel.boot_booted (fs : Fs) : (Kernel.boot fs).Booted :=
  ⟨rfl, rfl, rfl, fun _ => rfl, rfl, rfl⟩

/-- A filesystem with the program `shell`, of which there is the magic number only. -/
def shellImage : Fs where
  numDirEntries := 1
  dentries i :=
    { filename := fun k => if i = 0 then shellName.byte k else 0
      fileType := if i = 0 then FILE_TYPE_REGULAR else 3
      inodeNum := 1
      reserved := fun _ => 0 }
  inodes ino := ⟨if ino = 1 then 4 else 0, fun _ => 0⟩
  data _ o := ELVEN_HEAD.getD o 0
  dataBlockBitmap _ := 0

end CustomLinuxOs
