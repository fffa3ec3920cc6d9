import DismasmOS.Str.Impl

/-!
This module contains the word lists of the spell checker in `src/em/em.c`.
-/

namespace DismasmOS

def dictBash : List (List UInt8) :=
  ["if", "then", "else", "elif", "fi", "case", "esac", "for", "select", "while", "until", "do",
    "done", "in", "function", "time", "echo", "printf", "read", "cd", "pwd", "set", "unset",
    "export", "alias", "unalias", "source", "exec", "trap", "eval", "shift", "exit", "return",
    "declare", "typeset", "local", "readonly", "shopt", "test", "true", "false", "builtin",
    "command", "type", "hash", "bind", "help", "let", "complete", "compgen", "mapfile",
    "readarray", "enable", "disown", "suspend", "times", "umask", "wait", "kill", "bg", "fg",
    "jobs", "fc", "history", "cat", "grep", "sed", "awk", "cut", "sort", "uniq", "wc", "tr",
    "tee", "head", "tail", "find", "xargs", "chmod", "chown", "chgrp", "mkdir", "rmdir", "cp",
    "mv", "rm", "touch", "ln", "ls", "lsf", "ps", "top", "df", "du", "free", "sleep", "which",
    "whereis", "curl", "wget", "tar", "gzip", "gunzip", "zip", "unzip", "uname", "whoami", "id",
    "date", "basename", "dirname", "diff", "patch", "sudo", "su", "apt", "yum", "git", "make",
    "clear", "env", "ssh", "scp", "rsync", "ping", "systemctl", "reboot", "shutdown", "dmesg",
    "service", "makedir", "changes", "path", "home", "user", "shell", "term", "lang", "ifs",
    "reply", "args", "status", "stdin", "stdout", "stderr", "null", "pipe", "stream", "script",
    "file", "dir", "var", "name", "val", "value", "count", "line", "text", "string", "num",
    "loop", "item", "key", "flag", "opt", "option", "param", "error", "log", "temp", "tmp",
    "bin", "usr", "etc", "dev", "proc", "sys"].map str

def dictPython : List (List UInt8) :=
  ["and", "as", "assert", "async", "await", "break", "class", "continue", "def", "del", "elif",
    "else", "except", "finally", "for", "from", "global", "if", "import", "in", "is", "lambda",
    "nonlocal", "not", "or", "pass", "raise", "return", "try", "while", "with", "yield", "true",
    "false", "none", "match", "case", "print", "len", "range", "str", "int", "float", "list",
    "dict", "set", "tuple", "bool", "bytes", "type", "object", "input", "open", "read", "write",
    "close", "seek", "tell", "readline", "readlines", "append", "extend", "insert", "remove",
    "pop", "clear", "index", "count", "sort", "reverse", "copy", "keys", "values", "items",
    "get", "update", "split", "join", "strip", "lstrip", "rstrip", "replace", "find", "format",
    "lower", "upper", "title", "startswith", "endswith", "encode", "decode", "sum", "min",
    "max", "abs", "round", "pow", "enumerate", "zip", "map", "filter", "sorted", "reversed",
    "all", "any", "isinstance", "issubclass", "super", "self", "cls", "init", "main", "repr",
    "iter", "next", "dir", "help", "vars", "callable", "hasattr", "getattr", "setattr",
    "delattr", "property", "exception", "error", "valueerror", "typeerror", "indexerror",
    "keyerror", "ioerror", "oserror", "runtimeerror", "syntaxerror", "attributeerror",
    "nameerror", "importerror", "keyboardinterrupt", "sys", "os", "math", "re", "json", "time",
    "datetime", "random", "path", "collections", "itertools", "functools", "typing", "optional",
    "union", "subprocess", "argparse", "logging", "unittest", "threading", "socket", "data",
    "item", "result", "results", "response", "payload", "buffer", "stream", "chunk", "config",
    "params", "args", "kwargs", "target", "source", "node", "tree", "table", "column", "row",
    "size", "length", "total", "valid", "invalid", "success", "failure", "debug", "info",
    "warn", "warning"].map str

def dictMarkdown : List (List UInt8) :=
  ["markdown", "heading", "header", "subheading", "title", "summary", "abstract", "overview",
    "architecture", "specification", "specifications", "implementation", "manual", "reference",
    "references", "guide", "guidelines", "changelog", "changes", "features", "usage",
    "installation", "requirements", "prerequisites", "setup", "configuration", "build",
    "compile", "running", "run", "test", "tests", "testing", "benchmark", "license",
    "contributing", "author", "version", "release", "notes", "description", "details",
    "example", "examples", "sample", "code", "syntax", "table", "tables", "list", "lists",
    "link", "links", "url", "image", "images", "badge", "badges", "quote", "quotes",
    "blockquote", "block", "blocks", "codeblock", "inline", "bold", "italic", "strikethrough",
    "section", "sections", "subsection", "item", "items", "bullet", "numbered", "task", "tasks",
    "todo", "warning", "note", "tip", "important", "caution", "notice", "output", "input",
    "parameter", "parameters", "argument", "arguments", "status", "error", "result", "command",
    "commands", "terminal", "console", "shell", "bash", "python", "commit", "push", "pull",
    "branch", "repo", "repository", "github", "git", "text", "file", "files", "directory",
    "project", "system", "readme", "doc", "docs", "documentation", "api", "cli", "web",
    "server", "client", "platform", "kernel", "hardware", "software", "memory", "cpu", "device",
    "driver", "process", "thread", "network", "packet", "payload", "buffer", "byte", "bytes",
    "bit", "bits", "kib", "mib", "gib", "ram", "rom", "vga", "bios", "boot", "bootloader",
    "grub", "entry", "registers", "assembly", "source", "binary", "target", "default", "active",
    "enabled", "disabled", "passed", "check", "checklist", "verified", "step", "steps", "stage",
    "stages", "module", "modules", "library", "package", "dependency", "dependencies",
    "standard", "format", "layout", "report", "performance", "clean", "update", "fixed",
    "removed", "added"].map str

def dictCSystem : List (List UInt8) :=
  ["int", "char", "void", "return", "if", "else", "while", "for", "include", "define",
    "struct", "main", "static", "const", "unsigned", "signed", "sizeof", "typedef", "extern",
    "auto", "break", "continue", "default", "do", "double", "enum", "float", "goto", "long",
    "short", "switch", "union", "volatile", "case", "asm", "multiboot", "entry", "section",
    "align", "global", "type", "skip", "quad", "word", "byte", "vga", "pic", "idt", "gdt",
    "kbd", "io", "proc", "fs", "service", "prf", "memrep"].map str

def dictCommon : List (List UInt8) :=
  ["the", "be", "to", "of", "and", "a", "in", "that", "have", "i", "it", "for", "not", "on",
    "with", "he", "as", "you", "do", "at", "this", "but", "his", "by", "from", "they", "we",
    "say", "her", "she", "or", "an", "will", "my", "one", "all", "would", "there", "their",
    "what", "so", "up", "out", "about", "who", "get", "which", "go", "me", "when", "make",
    "can", "like", "time", "no", "just", "him", "know", "take", "people", "into", "year",
    "your", "good", "some", "could", "them", "see", "other", "than", "then", "now", "look",
    "only", "come", "its", "over", "think", "also", "back", "after", "use", "two", "how", "our",
    "work", "first", "well", "way", "even", "new", "want", "because", "any", "these", "give",
    "day", "most", "us", "root", "der", "die", "das", "und", "ist", "in", "den", "von", "zu",
    "mit", "sich", "des", "auf", "fuer", "im", "dem", "nicht", "ein", "eine", "einer", "eines",
    "einem", "einen", "als", "auch", "es", "an", "werden", "aus", "er", "hat", "dass", "sie",
    "nach", "wird", "bei", "um", "am", "sind", "noch", "wie", "ueber", "wir", "war", "hier",
    "hallo", "welt", "datei", "zeile", "speichern", "ende", "fehler", "neu", "bit", "prozesse",
    "prozess", "ja", "nein", "gut", "sehr", "mehr", "immer", "wenn", "dann", "nur", "alle",
    "kann", "man", "dazu", "machen", "sehen", "zeigen", "unter", "oben"].map str

end DismasmOS
