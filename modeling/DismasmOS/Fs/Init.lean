import DismasmOS.Fs.Impl

/-!
This module contains the files `fs_init` creates at boot.
-/

namespace DismasmOS

def initDirs : List (List UInt8) := ["/home", "/boot", "/krnl", "/shell", "/etc"].map str

def initFiles : List (List UInt8 × List UInt8) :=
  [
    ("/boot/grub.cfg",
      "set timeout=5\nset default=0\nmenuentry \"dismasmOS 1.2 x86_64\" \x7b\n"
        ++ "    multiboot /krnl/kernel.bin\n    boot\n\x7d\n"),
    ("/boot/boot.s",
      "[bits 32]\nglobal _start\n_start:\n    cli\n    jmp kernel_entry\n"),
    ("/krnl/kernel.sys",
      "OS_NAME=dismasmOS\nVERSION=1.2\nARCH=x86_64\nMODE=LONG_MODE_64BIT\n"
        ++ "KERNEL_BASE=0x00100000\nPAGING=IDENTITY_1GIB\n"),
    ("/krnl/system.map",
      "00100000 T _start\n00100100 T kmain\n00101000 T idt_init\n00102000 T vga_init\n"),
    ("/shell/sh.cfg",
      "PROMPT=root@admin@dismasmOS\nCOLOR=DEFAULT\nHISTORY=ENABLED\nAUTO_COMPLETE=OFF\n"),
    ("/shell/motd",
      "Welcome to dismasmOS 1.2 64-Bit Microkernel Shell.\n"
        ++ "Type 'help' for available commands.\n"),
    ("/shell/aliases", "alias cls=clear\nalias lsf=ls\nalias dir=lsf\n"),
    ("/etc/os-release",
      "NAME=\"dismasmOS\"\nVERSION=\"1.2\"\nID=dismasm\nPRETTY_NAME=\"dismasmOS 1.2 x86_64\"\n"),
    ("/etc/hostname", "dismasm-box\n"),
    ("/etc/fstab",
      "# <file system> <mount point> <type> <options>\n"
        ++ "ramfs           /             ramfs  rw,relatime 0 0\n")
  ].map fun (path, content) => (str path, str content)

def initFile (t : FileTable) (path content : List UInt8) : FileTable :=
  let t := (fsCreate t path).2
  (fsWrite t path content (strlen content)).2

def fsInit : Fs where
  table :=
    initFiles.foldl (fun t file => initFile t file.1 file.2)
      (initDirs.foldl (fun t path => (fsMkdir t path).2) FileTable.zero)
  changeLog := List.replicate FS_MAX_CHANGES FsChange.zero
  changeCount := 0
  history := []

end DismasmOS
