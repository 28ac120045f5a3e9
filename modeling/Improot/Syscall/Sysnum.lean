import Mathlib.Algebra.Group.Nat.Defs
import Mathlib.Data.List.Nodup
import Mathlib.Data.List.Perm.Subperm

/-!
# System call numbers

The neutral system call numbers of `syscall/sysnum.h`, the tables of the ABIs that translate them
to numbers of the host (`syscall/sysnums-*.h`), and `syscall/sysnum.c`.
-/

namespace Improot.Syscall

/-- The neutral system call numbers of `syscall/sysnums.list`. -/
inductive Sysnum where
  | PR_void
  | PR_ARM_BASE | PR_ARM_breakpoint | PR_ARM_cacheflush | PR_ARM_set_tls | PR_ARM_usr26
  | PR_ARM_usr32 | PR_X32_SYSCALL_BIT | PR__llseek | PR__newselect | PR__sysctl | PR_accept
  | PR_accept4 | PR_access | PR_acct | PR_add_key | PR_adjtimex | PR_afs_syscall | PR_alarm
  | PR_arch_prctl | PR_arch_specific_syscall | PR_arm_fadvise64_64 | PR_arm_sync_file_range
  | PR_bdflush | PR_bind | PR_bpf | PR_break | PR_brk | PR_cacheflush | PR_capget | PR_capset
  | PR_chdir | PR_chmod | PR_chown | PR_chown32 | PR_chroot | PR_clock_adjtime | PR_clock_getres
  | PR_clock_gettime | PR_clock_nanosleep | PR_clock_settime | PR_clone | PR_clone3 | PR_close
  | PR_connect | PR_copy_file_range | PR_creat | PR_create_module | PR_delete_module | PR_dup
  | PR_dup2 | PR_dup3 | PR_epoll_create | PR_epoll_create1 | PR_epoll_ctl | PR_epoll_ctl_old
  | PR_epoll_pwait | PR_epoll_wait | PR_epoll_wait_old | PR_eventfd | PR_eventfd2 | PR_execve
  | PR_execveat | PR_exit | PR_exit_group | PR_faccessat | PR_faccessat2 | PR_fadvise64
  | PR_fadvise64_64 | PR_fallocate | PR_fanotify_init | PR_fanotify_mark | PR_fchdir | PR_fchmod
  | PR_fchmodat | PR_fchown | PR_fchown32 | PR_fchownat | PR_fcntl | PR_fcntl64 | PR_fdatasync
  | PR_fgetxattr | PR_finit_module | PR_flistxattr | PR_flock | PR_fork | PR_fremovexattr
  | PR_fsetxattr | PR_fstat | PR_fstat64 | PR_fstatat64 | PR_fstatfs | PR_fstatfs64 | PR_fsync
  | PR_ftime | PR_ftruncate | PR_ftruncate64 | PR_futex | PR_futimesat | PR_get_kernel_syms
  | PR_get_mempolicy | PR_get_robust_list | PR_get_thread_area | PR_getcpu | PR_getcwd
  | PR_getdents | PR_getdents64 | PR_getegid | PR_getegid32 | PR_geteuid | PR_geteuid32
  | PR_getgid | PR_getgid32 | PR_getgroups | PR_getgroups32 | PR_getitimer | PR_getpeername
  | PR_getpgid | PR_getpgrp | PR_getpid | PR_getpmsg | PR_getppid | PR_getpriority | PR_getrandom
  | PR_getresgid | PR_getresgid32 | PR_getresuid | PR_getresuid32 | PR_getrlimit | PR_getrusage
  | PR_getsid | PR_getsockname | PR_getsockopt | PR_gettid | PR_gettimeofday | PR_getuid
  | PR_getuid32 | PR_getxattr | PR_gtty | PR_idle | PR_init_module | PR_inotify_add_watch
  | PR_inotify_init | PR_inotify_init1 | PR_inotify_rm_watch | PR_io_cancel | PR_io_destroy
  | PR_io_getevents | PR_io_setup | PR_io_submit | PR_ioctl | PR_ioperm | PR_iopl | PR_ioprio_get
  | PR_ioprio_set | PR_ipc | PR_kcmp | PR_kexec_file_load | PR_kexec_load | PR_keyctl | PR_kill
  | PR_lchown | PR_lchown32 | PR_lgetxattr | PR_link | PR_linkat | PR_listen | PR_listxattr
  | PR_llistxattr | PR_lock | PR_lookup_dcookie | PR_lremovexattr | PR_lseek | PR_lsetxattr
  | PR_lstat | PR_lstat64 | PR_madvise | PR_mbind | PR_membarrier | PR_memfd_create
  | PR_migrate_pages | PR_mincore | PR_mkdir | PR_mkdirat | PR_mknod | PR_mknodat | PR_mlock
  | PR_mlock2 | PR_mlockall | PR_mmap | PR_mmap2 | PR_modify_ldt | PR_mount | PR_move_pages
  | PR_mprotect | PR_mpx | PR_mq_getsetattr | PR_mq_notify | PR_mq_open | PR_mq_timedreceive
  | PR_mq_timedsend | PR_mq_unlink | PR_mremap | PR_msgctl | PR_msgget | PR_msgrcv | PR_msgsnd
  | PR_msync | PR_munlock | PR_munlockall | PR_munmap | PR_name_to_handle_at | PR_nanosleep
  | PR_newfstatat | PR_nfsservctl | PR_nice | PR_oldfstat | PR_oldlstat | PR_oldolduname
  | PR_oldstat | PR_olduname | PR_open | PR_open_by_handle_at | PR_openat | PR_openat2 | PR_pause
  | PR_pciconfig_iobase | PR_pciconfig_read | PR_pciconfig_write | PR_perf_event_open
  | PR_personality | PR_pipe | PR_pipe2 | PR_pivot_root | PR_pkey_alloc | PR_pkey_free
  | PR_pkey_mprotect | PR_poll | PR_ppoll | PR_prctl | PR_pread64 | PR_preadv | PR_preadv2
  | PR_prlimit64 | PR_process_vm_readv | PR_process_vm_writev | PR_prof | PR_profil | PR_pselect6
  | PR_ptrace | PR_putpmsg | PR_pwrite64 | PR_pwritev | PR_pwritev2 | PR_query_module
  | PR_quotactl | PR_read | PR_readahead | PR_readdir | PR_readlink | PR_readlinkat | PR_readv
  | PR_reboot | PR_recv | PR_recvfrom | PR_recvmmsg | PR_recvmsg | PR_remap_file_pages
  | PR_removexattr | PR_rename | PR_renameat | PR_renameat2 | PR_request_key | PR_restart_syscall
  | PR_rmdir | PR_rt_sigaction | PR_rt_sigpending | PR_rt_sigprocmask | PR_rt_sigqueueinfo
  | PR_rt_sigreturn | PR_rt_sigsuspend | PR_rt_sigtimedwait | PR_rt_tgsigqueueinfo
  | PR_sched_get_priority_max | PR_sched_get_priority_min | PR_sched_getaffinity
  | PR_sched_getattr | PR_sched_getparam | PR_sched_getscheduler | PR_sched_rr_get_interval
  | PR_sched_setaffinity | PR_sched_setattr | PR_sched_setparam | PR_sched_setscheduler
  | PR_sched_yield | PR_seccomp | PR_security | PR_select | PR_semctl | PR_semget | PR_semop
  | PR_semtimedop | PR_send | PR_sendfile | PR_sendfile64 | PR_sendmmsg | PR_sendmsg | PR_sendto
  | PR_set_mempolicy | PR_set_robust_list | PR_set_thread_area | PR_set_tid_address
  | PR_setdomainname | PR_setfsgid | PR_setfsgid32 | PR_setfsuid | PR_setfsuid32 | PR_setgid
  | PR_setgid32 | PR_setgroups | PR_setgroups32 | PR_sethostname | PR_setitimer | PR_setns
  | PR_setpgid | PR_setpriority | PR_setregid | PR_setregid32 | PR_setresgid | PR_setresgid32
  | PR_setresuid | PR_setresuid32 | PR_setreuid | PR_setreuid32 | PR_setrlimit | PR_setsid
  | PR_setsockopt | PR_settimeofday | PR_setuid | PR_setuid32 | PR_setxattr | PR_sgetmask
  | PR_shmat | PR_shmctl | PR_shmdt | PR_shmget | PR_shutdown | PR_sigaction | PR_sigaltstack
  | PR_signal | PR_signalfd | PR_signalfd4 | PR_sigpending | PR_sigprocmask | PR_sigreturn
  | PR_sigsuspend | PR_socket | PR_socketcall | PR_socketpair | PR_splice | PR_ssetmask | PR_stat
  | PR_stat64 | PR_statfs | PR_statfs64 | PR_statx | PR_stime | PR_stty | PR_swapoff | PR_swapon
  | PR_symlink | PR_symlinkat | PR_sync | PR_sync_file_range | PR_sync_file_range2 | PR_syncfs
  | PR_sysfs | PR_sysinfo | PR_syslog | PR_tee | PR_tgkill | PR_time | PR_timer_create
  | PR_timer_delete | PR_timer_getoverrun | PR_timer_gettime | PR_timer_settime
  | PR_timerfd_create | PR_timerfd_gettime | PR_timerfd_settime | PR_times | PR_tkill
  | PR_truncate | PR_truncate64 | PR_tuxcall | PR_ugetrlimit | PR_ulimit | PR_umask | PR_umount
  | PR_umount2 | PR_uname | PR_unlink | PR_unlinkat | PR_unshare | PR_uselib | PR_userfaultfd
  | PR_ustat | PR_utime | PR_utimensat | PR_utimes | PR_vfork | PR_vhangup | PR_vm86 | PR_vm86old
  | PR_vmsplice | PR_vserver | PR_wait4 | PR_waitid | PR_waitpid | PR_write | PR_writev
  | PR_x32_execve | PR_x32_get_robust_list | PR_x32_ioctl | PR_x32_kexec_load | PR_x32_move_pages
  | PR_x32_mq_notify | PR_x32_preadv | PR_x32_process_vm_readv | PR_x32_process_vm_writev
  | PR_x32_ptrace | PR_x32_pwritev | PR_x32_readv | PR_x32_recvfrom | PR_x32_recvmmsg
  | PR_x32_recvmsg | PR_x32_rt_sigaction | PR_x32_rt_sigpending | PR_x32_rt_sigqueueinfo
  | PR_x32_rt_sigreturn | PR_x32_rt_sigtimedwait | PR_x32_rt_tgsigqueueinfo | PR_x32_sendmmsg
  | PR_x32_sendmsg | PR_x32_set_robust_list | PR_x32_sigaltstack | PR_x32_timer_create
  | PR_x32_vmsplice | PR_x32_waitid | PR_x32_writev
  deriving DecidableEq

open Sysnum

/-- `PR_NB_SYSNUM`. -/
def nbSysnum : Nat := 450

/-- A run of designated initializers: `[ start ] = items[0], [ start + 1 ] = items[1], …`. -/
structure Run where
  start : Nat
  items : List Sysnum

/-- The array that runs of initializers in increasing order define; the holes are `PR_void`. -/
def tableOf (runs : List Run) : List Sysnum :=
  runs.foldl
    (fun table run => table ++ List.replicate (run.start - table.length) PR_void ++ run.items) []

def sysnumsX86_64 : List Sysnum := tableOf [
  ⟨0, [PR_read, PR_write, PR_open, PR_close, PR_stat, PR_fstat, PR_lstat, PR_poll, PR_lseek,
    PR_mmap, PR_mprotect, PR_munmap, PR_brk, PR_rt_sigaction, PR_rt_sigprocmask, PR_rt_sigreturn,
    PR_ioctl, PR_pread64, PR_pwrite64, PR_readv, PR_writev, PR_access, PR_pipe, PR_select,
    PR_sched_yield, PR_mremap, PR_msync, PR_mincore, PR_madvise, PR_shmget, PR_shmat, PR_shmctl,
    PR_dup, PR_dup2, PR_pause, PR_nanosleep, PR_getitimer, PR_alarm, PR_setitimer, PR_getpid,
    PR_sendfile, PR_socket, PR_connect, PR_accept, PR_sendto, PR_recvfrom, PR_sendmsg, PR_recvmsg,
    PR_shutdown, PR_bind, PR_listen, PR_getsockname, PR_getpeername, PR_socketpair, PR_setsockopt,
    PR_getsockopt, PR_clone, PR_fork, PR_vfork, PR_execve, PR_exit, PR_wait4, PR_kill, PR_uname,
    PR_semget, PR_semop, PR_semctl, PR_shmdt, PR_msgget, PR_msgsnd, PR_msgrcv, PR_msgctl,
    PR_fcntl, PR_flock, PR_fsync, PR_fdatasync, PR_truncate, PR_ftruncate, PR_getdents, PR_getcwd,
    PR_chdir, PR_fchdir, PR_rename, PR_mkdir, PR_rmdir, PR_creat, PR_link, PR_unlink, PR_symlink,
    PR_readlink, PR_chmod, PR_fchmod, PR_chown, PR_fchown, PR_lchown, PR_umask, PR_gettimeofday,
    PR_getrlimit, PR_getrusage, PR_sysinfo, PR_times, PR_ptrace, PR_getuid, PR_syslog, PR_getgid,
    PR_setuid, PR_setgid, PR_geteuid, PR_getegid, PR_setpgid, PR_getppid, PR_getpgrp, PR_setsid,
    PR_setreuid, PR_setregid, PR_getgroups, PR_setgroups, PR_setresuid, PR_getresuid,
    PR_setresgid, PR_getresgid, PR_getpgid, PR_setfsuid, PR_setfsgid, PR_getsid, PR_capget,
    PR_capset, PR_rt_sigpending, PR_rt_sigtimedwait, PR_rt_sigqueueinfo, PR_rt_sigsuspend,
    PR_sigaltstack, PR_utime, PR_mknod, PR_uselib, PR_personality, PR_ustat, PR_statfs,
    PR_fstatfs, PR_sysfs, PR_getpriority, PR_setpriority, PR_sched_setparam, PR_sched_getparam,
    PR_sched_setscheduler, PR_sched_getscheduler, PR_sched_get_priority_max,
    PR_sched_get_priority_min, PR_sched_rr_get_interval, PR_mlock, PR_munlock, PR_mlockall,
    PR_munlockall, PR_vhangup, PR_modify_ldt, PR_pivot_root, PR__sysctl, PR_prctl, PR_arch_prctl,
    PR_adjtimex, PR_setrlimit, PR_chroot, PR_sync, PR_acct, PR_settimeofday, PR_mount, PR_umount2,
    PR_swapon, PR_swapoff, PR_reboot, PR_sethostname, PR_setdomainname, PR_iopl, PR_ioperm,
    PR_create_module, PR_init_module, PR_delete_module, PR_get_kernel_syms, PR_query_module,
    PR_quotactl, PR_nfsservctl, PR_getpmsg, PR_putpmsg, PR_afs_syscall, PR_tuxcall, PR_security,
    PR_gettid, PR_readahead, PR_setxattr, PR_lsetxattr, PR_fsetxattr, PR_getxattr, PR_lgetxattr,
    PR_fgetxattr, PR_listxattr, PR_llistxattr, PR_flistxattr, PR_removexattr, PR_lremovexattr,
    PR_fremovexattr, PR_tkill, PR_time, PR_futex, PR_sched_setaffinity, PR_sched_getaffinity,
    PR_set_thread_area, PR_io_setup, PR_io_destroy, PR_io_getevents, PR_io_submit, PR_io_cancel,
    PR_get_thread_area, PR_lookup_dcookie, PR_epoll_create, PR_epoll_ctl_old, PR_epoll_wait_old,
    PR_remap_file_pages, PR_getdents64, PR_set_tid_address, PR_restart_syscall, PR_semtimedop,
    PR_fadvise64, PR_timer_create, PR_timer_settime, PR_timer_gettime, PR_timer_getoverrun,
    PR_timer_delete, PR_clock_settime, PR_clock_gettime, PR_clock_getres, PR_clock_nanosleep,
    PR_exit_group, PR_epoll_wait, PR_epoll_ctl, PR_tgkill, PR_utimes, PR_vserver, PR_mbind,
    PR_set_mempolicy, PR_get_mempolicy, PR_mq_open, PR_mq_unlink, PR_mq_timedsend,
    PR_mq_timedreceive, PR_mq_notify, PR_mq_getsetattr, PR_kexec_load, PR_waitid, PR_add_key,
    PR_request_key, PR_keyctl, PR_ioprio_set, PR_ioprio_get, PR_inotify_init,
    PR_inotify_add_watch, PR_inotify_rm_watch, PR_migrate_pages, PR_openat, PR_mkdirat,
    PR_mknodat, PR_fchownat, PR_futimesat, PR_newfstatat, PR_unlinkat, PR_renameat, PR_linkat,
    PR_symlinkat, PR_readlinkat, PR_fchmodat, PR_faccessat, PR_pselect6, PR_ppoll, PR_unshare,
    PR_set_robust_list, PR_get_robust_list, PR_splice, PR_tee, PR_sync_file_range, PR_vmsplice,
    PR_move_pages, PR_utimensat, PR_epoll_pwait, PR_signalfd, PR_timerfd_create, PR_eventfd,
    PR_fallocate, PR_timerfd_settime, PR_timerfd_gettime, PR_accept4, PR_signalfd4, PR_eventfd2,
    PR_epoll_create1, PR_dup3, PR_pipe2, PR_inotify_init1, PR_preadv, PR_pwritev,
    PR_rt_tgsigqueueinfo, PR_perf_event_open, PR_recvmmsg, PR_fanotify_init, PR_fanotify_mark,
    PR_prlimit64, PR_name_to_handle_at, PR_open_by_handle_at, PR_clock_adjtime, PR_syncfs,
    PR_sendmmsg, PR_setns, PR_getcpu, PR_process_vm_readv, PR_process_vm_writev, PR_kcmp,
    PR_finit_module, PR_sched_setattr, PR_sched_getattr, PR_renameat2, PR_seccomp, PR_getrandom,
    PR_memfd_create, PR_kexec_file_load, PR_bpf, PR_execveat, PR_userfaultfd, PR_membarrier,
    PR_mlock2, PR_copy_file_range, PR_preadv2, PR_pwritev2, PR_pkey_mprotect, PR_pkey_alloc,
    PR_pkey_free, PR_statx]⟩,
  ⟨435, [PR_clone3]⟩,
  ⟨437, [PR_openat2]⟩,
  ⟨439, [PR_faccessat2]⟩]

def sysnumsI386 : List Sysnum := tableOf [
  ⟨0, [PR_restart_syscall, PR_exit, PR_fork, PR_read, PR_write, PR_open, PR_close, PR_waitpid,
    PR_creat, PR_link, PR_unlink, PR_execve, PR_chdir, PR_time, PR_mknod, PR_chmod, PR_lchown,
    PR_break, PR_oldstat, PR_lseek, PR_getpid, PR_mount, PR_umount, PR_setuid, PR_getuid,
    PR_stime, PR_ptrace, PR_alarm, PR_oldfstat, PR_pause, PR_utime, PR_stty, PR_gtty, PR_access,
    PR_nice, PR_ftime, PR_sync, PR_kill, PR_rename, PR_mkdir, PR_rmdir, PR_dup, PR_pipe, PR_times,
    PR_prof, PR_brk, PR_setgid, PR_getgid, PR_signal, PR_geteuid, PR_getegid, PR_acct, PR_umount2,
    PR_lock, PR_ioctl, PR_fcntl, PR_mpx, PR_setpgid, PR_ulimit, PR_oldolduname, PR_umask,
    PR_chroot, PR_ustat, PR_dup2, PR_getppid, PR_getpgrp, PR_setsid, PR_sigaction, PR_sgetmask,
    PR_ssetmask, PR_setreuid, PR_setregid, PR_sigsuspend, PR_sigpending, PR_sethostname,
    PR_setrlimit, PR_getrlimit, PR_getrusage, PR_gettimeofday, PR_settimeofday, PR_getgroups,
    PR_setgroups, PR_select, PR_symlink, PR_oldlstat, PR_readlink, PR_uselib, PR_swapon,
    PR_reboot, PR_readdir, PR_mmap, PR_munmap, PR_truncate, PR_ftruncate, PR_fchmod, PR_fchown,
    PR_getpriority, PR_setpriority, PR_profil, PR_statfs, PR_fstatfs, PR_ioperm, PR_socketcall,
    PR_syslog, PR_setitimer, PR_getitimer, PR_stat, PR_lstat, PR_fstat, PR_olduname, PR_iopl,
    PR_vhangup, PR_idle, PR_vm86old, PR_wait4, PR_swapoff, PR_sysinfo, PR_ipc, PR_fsync,
    PR_sigreturn, PR_clone, PR_setdomainname, PR_uname, PR_modify_ldt, PR_adjtimex, PR_mprotect,
    PR_sigprocmask, PR_create_module, PR_init_module, PR_delete_module, PR_get_kernel_syms,
    PR_quotactl, PR_getpgid, PR_fchdir, PR_bdflush, PR_sysfs, PR_personality, PR_afs_syscall,
    PR_setfsuid, PR_setfsgid, PR__llseek, PR_getdents, PR__newselect, PR_flock, PR_msync,
    PR_readv, PR_writev, PR_getsid, PR_fdatasync, PR__sysctl, PR_mlock, PR_munlock, PR_mlockall,
    PR_munlockall, PR_sched_setparam, PR_sched_getparam, PR_sched_setscheduler,
    PR_sched_getscheduler, PR_sched_yield, PR_sched_get_priority_max, PR_sched_get_priority_min,
    PR_sched_rr_get_interval, PR_nanosleep, PR_mremap, PR_setresuid, PR_getresuid, PR_vm86,
    PR_query_module, PR_poll, PR_nfsservctl, PR_setresgid, PR_getresgid, PR_prctl,
    PR_rt_sigreturn, PR_rt_sigaction, PR_rt_sigprocmask, PR_rt_sigpending, PR_rt_sigtimedwait,
    PR_rt_sigqueueinfo, PR_rt_sigsuspend, PR_pread64, PR_pwrite64, PR_chown, PR_getcwd, PR_capget,
    PR_capset, PR_sigaltstack, PR_sendfile, PR_getpmsg, PR_putpmsg, PR_vfork, PR_ugetrlimit,
    PR_mmap2, PR_truncate64, PR_ftruncate64, PR_stat64, PR_lstat64, PR_fstat64, PR_lchown32,
    PR_getuid32, PR_getgid32, PR_geteuid32, PR_getegid32, PR_setreuid32, PR_setregid32,
    PR_getgroups32, PR_setgroups32, PR_fchown32, PR_setresuid32, PR_getresuid32, PR_setresgid32,
    PR_getresgid32, PR_chown32, PR_setuid32, PR_setgid32, PR_setfsuid32, PR_setfsgid32,
    PR_pivot_root, PR_mincore, PR_madvise, PR_getdents64, PR_fcntl64]⟩,
  ⟨224, [PR_gettid, PR_readahead, PR_setxattr, PR_lsetxattr, PR_fsetxattr, PR_getxattr,
    PR_lgetxattr, PR_fgetxattr, PR_listxattr, PR_llistxattr, PR_flistxattr, PR_removexattr,
    PR_lremovexattr, PR_fremovexattr, PR_tkill, PR_sendfile64, PR_futex, PR_sched_setaffinity,
    PR_sched_getaffinity, PR_set_thread_area, PR_get_thread_area, PR_io_setup, PR_io_destroy,
    PR_io_getevents, PR_io_submit, PR_io_cancel, PR_fadvise64]⟩,
  ⟨252, [PR_exit_group, PR_lookup_dcookie, PR_epoll_create, PR_epoll_ctl, PR_epoll_wait,
    PR_remap_file_pages, PR_set_tid_address, PR_timer_create, PR_timer_settime, PR_timer_gettime,
    PR_timer_getoverrun, PR_timer_delete, PR_clock_settime, PR_clock_gettime, PR_clock_getres,
    PR_clock_nanosleep, PR_statfs64, PR_fstatfs64, PR_tgkill, PR_utimes, PR_fadvise64_64,
    PR_vserver, PR_mbind, PR_get_mempolicy, PR_set_mempolicy, PR_mq_open, PR_mq_unlink,
    PR_mq_timedsend, PR_mq_timedreceive, PR_mq_notify, PR_mq_getsetattr, PR_kexec_load,
    PR_waitid]⟩,
  ⟨286, [PR_add_key, PR_request_key, PR_keyctl, PR_ioprio_set, PR_ioprio_get, PR_inotify_init,
    PR_inotify_add_watch, PR_inotify_rm_watch, PR_migrate_pages, PR_openat, PR_mkdirat,
    PR_mknodat, PR_fchownat, PR_futimesat, PR_fstatat64, PR_unlinkat, PR_renameat, PR_linkat,
    PR_symlinkat, PR_readlinkat, PR_fchmodat, PR_faccessat, PR_pselect6, PR_ppoll, PR_unshare,
    PR_set_robust_list, PR_get_robust_list, PR_splice, PR_sync_file_range, PR_tee, PR_vmsplice,
    PR_move_pages, PR_getcpu, PR_epoll_pwait, PR_utimensat, PR_signalfd, PR_timerfd_create,
    PR_eventfd, PR_fallocate, PR_timerfd_settime, PR_timerfd_gettime, PR_signalfd4, PR_eventfd2,
    PR_epoll_create1, PR_dup3, PR_pipe2, PR_inotify_init1, PR_preadv, PR_pwritev,
    PR_rt_tgsigqueueinfo, PR_perf_event_open, PR_recvmmsg, PR_fanotify_init, PR_fanotify_mark,
    PR_prlimit64, PR_name_to_handle_at, PR_open_by_handle_at, PR_clock_adjtime, PR_syncfs,
    PR_sendmmsg, PR_setns, PR_process_vm_readv, PR_process_vm_writev, PR_kcmp, PR_finit_module,
    PR_sched_setattr, PR_sched_getattr, PR_renameat2, PR_seccomp, PR_getrandom, PR_memfd_create,
    PR_bpf, PR_execveat, PR_socket, PR_socketpair, PR_bind, PR_connect, PR_listen, PR_accept4,
    PR_getsockopt, PR_setsockopt, PR_getsockname, PR_getpeername, PR_sendto, PR_sendmsg,
    PR_recvfrom, PR_recvmsg, PR_shutdown, PR_userfaultfd, PR_membarrier, PR_mlock2,
    PR_copy_file_range, PR_preadv2, PR_pwritev2, PR_pkey_mprotect, PR_pkey_alloc, PR_pkey_free,
    PR_statx]⟩,
  ⟨435, [PR_clone3]⟩,
  ⟨437, [PR_openat2]⟩,
  ⟨439, [PR_faccessat2]⟩]

def sysnumsX32 : List Sysnum := tableOf [
  ⟨0, [PR_read, PR_write, PR_open, PR_close, PR_stat, PR_fstat, PR_lstat, PR_poll, PR_lseek,
    PR_mmap, PR_mprotect, PR_munmap, PR_brk]⟩,
  ⟨14, [PR_rt_sigprocmask]⟩,
  ⟨17, [PR_pread64, PR_pwrite64]⟩,
  ⟨21, [PR_access, PR_pipe, PR_select, PR_sched_yield, PR_mremap, PR_msync, PR_mincore,
    PR_madvise, PR_shmget, PR_shmat, PR_shmctl, PR_dup, PR_dup2, PR_pause, PR_nanosleep,
    PR_getitimer, PR_alarm, PR_setitimer, PR_getpid, PR_sendfile, PR_socket, PR_connect,
    PR_accept, PR_sendto]⟩,
  ⟨48, [PR_shutdown, PR_bind, PR_listen, PR_getsockname, PR_getpeername, PR_socketpair]⟩,
  ⟨56, [PR_clone, PR_fork, PR_vfork]⟩,
  ⟨60, [PR_exit, PR_wait4, PR_kill, PR_uname, PR_semget, PR_semop, PR_semctl, PR_shmdt, PR_msgget,
    PR_msgsnd, PR_msgrcv, PR_msgctl, PR_fcntl, PR_flock, PR_fsync, PR_fdatasync, PR_truncate,
    PR_ftruncate, PR_getdents, PR_getcwd, PR_chdir, PR_fchdir, PR_rename, PR_mkdir, PR_rmdir,
    PR_creat, PR_link, PR_unlink, PR_symlink, PR_readlink, PR_chmod, PR_fchmod, PR_chown,
    PR_fchown, PR_lchown, PR_umask, PR_gettimeofday, PR_getrlimit, PR_getrusage, PR_sysinfo,
    PR_times]⟩,
  ⟨102, [PR_getuid, PR_syslog, PR_getgid, PR_setuid, PR_setgid, PR_geteuid, PR_getegid,
    PR_setpgid, PR_getppid, PR_getpgrp, PR_setsid, PR_setreuid, PR_setregid, PR_getgroups,
    PR_setgroups, PR_setresuid, PR_getresuid, PR_setresgid, PR_getresgid, PR_getpgid, PR_setfsuid,
    PR_setfsgid, PR_getsid, PR_capget, PR_capset]⟩,
  ⟨130, [PR_rt_sigsuspend]⟩,
  ⟨132, [PR_utime, PR_mknod]⟩,
  ⟨135, [PR_personality, PR_ustat, PR_statfs, PR_fstatfs, PR_sysfs, PR_getpriority,
    PR_setpriority, PR_sched_setparam, PR_sched_getparam, PR_sched_setscheduler,
    PR_sched_getscheduler, PR_sched_get_priority_max, PR_sched_get_priority_min,
    PR_sched_rr_get_interval, PR_mlock, PR_munlock, PR_mlockall, PR_munlockall, PR_vhangup,
    PR_modify_ldt, PR_pivot_root]⟩,
  ⟨157, [PR_prctl, PR_arch_prctl, PR_adjtimex, PR_setrlimit, PR_chroot, PR_sync, PR_acct,
    PR_settimeofday, PR_mount, PR_umount2, PR_swapon, PR_swapoff, PR_reboot, PR_sethostname,
    PR_setdomainname, PR_iopl, PR_ioperm]⟩,
  ⟨175, [PR_init_module, PR_delete_module]⟩,
  ⟨179, [PR_quotactl]⟩,
  ⟨181, [PR_getpmsg, PR_putpmsg, PR_afs_syscall, PR_tuxcall, PR_security, PR_gettid, PR_readahead,
    PR_setxattr, PR_lsetxattr, PR_fsetxattr, PR_getxattr, PR_lgetxattr, PR_fgetxattr,
    PR_listxattr, PR_llistxattr, PR_flistxattr, PR_removexattr, PR_lremovexattr, PR_fremovexattr,
    PR_tkill, PR_time, PR_futex, PR_sched_setaffinity, PR_sched_getaffinity]⟩,
  ⟨206, [PR_io_setup, PR_io_destroy, PR_io_getevents, PR_io_submit, PR_io_cancel]⟩,
  ⟨212, [PR_lookup_dcookie, PR_epoll_create]⟩,
  ⟨216, [PR_remap_file_pages, PR_getdents64, PR_set_tid_address, PR_restart_syscall,
    PR_semtimedop, PR_fadvise64]⟩,
  ⟨223, [PR_timer_settime, PR_timer_gettime, PR_timer_getoverrun, PR_timer_delete,
    PR_clock_settime, PR_clock_gettime, PR_clock_getres, PR_clock_nanosleep, PR_exit_group,
    PR_epoll_wait, PR_epoll_ctl, PR_tgkill, PR_utimes]⟩,
  ⟨237, [PR_mbind, PR_set_mempolicy, PR_get_mempolicy, PR_mq_open, PR_mq_unlink, PR_mq_timedsend,
    PR_mq_timedreceive]⟩,
  ⟨245, [PR_mq_getsetattr]⟩,
  ⟨248, [PR_add_key, PR_request_key, PR_keyctl, PR_ioprio_set, PR_ioprio_get, PR_inotify_init,
    PR_inotify_add_watch, PR_inotify_rm_watch, PR_migrate_pages, PR_openat, PR_mkdirat,
    PR_mknodat, PR_fchownat, PR_futimesat, PR_newfstatat, PR_unlinkat, PR_renameat, PR_linkat,
    PR_symlinkat, PR_readlinkat, PR_fchmodat, PR_faccessat, PR_pselect6, PR_ppoll, PR_unshare]⟩,
  ⟨275, [PR_splice, PR_tee, PR_sync_file_range]⟩,
  ⟨280, [PR_utimensat, PR_epoll_pwait, PR_signalfd, PR_timerfd_create, PR_eventfd, PR_fallocate,
    PR_timerfd_settime, PR_timerfd_gettime, PR_accept4, PR_signalfd4, PR_eventfd2,
    PR_epoll_create1, PR_dup3, PR_pipe2, PR_inotify_init1]⟩,
  ⟨298, [PR_perf_event_open]⟩,
  ⟨300, [PR_fanotify_init, PR_fanotify_mark, PR_prlimit64, PR_name_to_handle_at,
    PR_open_by_handle_at, PR_clock_adjtime, PR_syncfs]⟩,
  ⟨308, [PR_setns, PR_getcpu]⟩,
  ⟨312, [PR_kcmp]⟩,
  ⟨316, [PR_renameat2]⟩,
  ⟨435, [PR_clone3]⟩,
  ⟨437, [PR_openat2]⟩,
  ⟨512, [PR_rt_sigaction, PR_rt_sigreturn, PR_ioctl, PR_readv, PR_writev, PR_recvfrom, PR_sendmsg,
    PR_recvmsg, PR_execve, PR_ptrace, PR_rt_sigpending, PR_rt_sigtimedwait, PR_rt_sigqueueinfo,
    PR_sigaltstack, PR_timer_create, PR_mq_notify, PR_kexec_load, PR_waitid, PR_set_robust_list,
    PR_get_robust_list, PR_vmsplice, PR_move_pages, PR_preadv, PR_pwritev, PR_rt_tgsigqueueinfo,
    PR_recvmmsg, PR_sendmmsg, PR_process_vm_readv, PR_process_vm_writev, PR_setsockopt,
    PR_getsockopt]⟩]

def sysnumsArm : List Sysnum := tableOf [
  ⟨0, [PR_restart_syscall, PR_exit, PR_fork, PR_read, PR_write, PR_open, PR_close]⟩,
  ⟨8, [PR_creat, PR_link, PR_unlink, PR_execve, PR_chdir]⟩,
  ⟨14, [PR_mknod, PR_chmod, PR_lchown]⟩,
  ⟨19, [PR_lseek, PR_getpid, PR_mount]⟩,
  ⟨23, [PR_setuid, PR_getuid]⟩,
  ⟨26, [PR_ptrace]⟩,
  ⟨29, [PR_pause, PR_utime]⟩,
  ⟨33, [PR_access, PR_nice]⟩,
  ⟨36, [PR_sync, PR_kill, PR_rename, PR_mkdir, PR_rmdir, PR_dup, PR_pipe, PR_times]⟩,
  ⟨45, [PR_brk, PR_setgid, PR_getgid]⟩,
  ⟨49, [PR_geteuid, PR_getegid, PR_acct, PR_umount2]⟩,
  ⟨54, [PR_ioctl, PR_fcntl]⟩,
  ⟨57, [PR_setpgid]⟩,
  ⟨60, [PR_umask, PR_chroot, PR_ustat, PR_dup2, PR_getppid, PR_getpgrp, PR_setsid, PR_sigaction]⟩,
  ⟨70, [PR_setreuid, PR_setregid, PR_sigsuspend, PR_sigpending, PR_sethostname, PR_setrlimit]⟩,
  ⟨77, [PR_getrusage, PR_gettimeofday, PR_settimeofday, PR_getgroups, PR_setgroups]⟩,
  ⟨83, [PR_symlink]⟩,
  ⟨85, [PR_readlink, PR_uselib, PR_swapon, PR_reboot]⟩,
  ⟨91, [PR_munmap, PR_truncate, PR_ftruncate, PR_fchmod, PR_fchown, PR_getpriority,
    PR_setpriority]⟩,
  ⟨99, [PR_statfs, PR_fstatfs]⟩,
  ⟨103, [PR_syslog, PR_setitimer, PR_getitimer, PR_stat, PR_lstat, PR_fstat]⟩,
  ⟨111, [PR_vhangup]⟩,
  ⟨114, [PR_wait4, PR_swapoff, PR_sysinfo]⟩,
  ⟨118, [PR_fsync, PR_sigreturn, PR_clone, PR_setdomainname, PR_uname]⟩,
  ⟨124, [PR_adjtimex, PR_mprotect, PR_sigprocmask]⟩,
  ⟨128, [PR_init_module, PR_delete_module]⟩,
  ⟨131, [PR_quotactl, PR_getpgid, PR_fchdir, PR_bdflush, PR_sysfs, PR_personality]⟩,
  ⟨138, [PR_setfsuid, PR_setfsgid, PR__llseek, PR_getdents, PR__newselect, PR_flock, PR_msync,
    PR_readv, PR_writev, PR_getsid, PR_fdatasync, PR__sysctl, PR_mlock, PR_munlock, PR_mlockall,
    PR_munlockall, PR_sched_setparam, PR_sched_getparam, PR_sched_setscheduler,
    PR_sched_getscheduler, PR_sched_yield, PR_sched_get_priority_max, PR_sched_get_priority_min,
    PR_sched_rr_get_interval, PR_nanosleep, PR_mremap, PR_setresuid, PR_getresuid]⟩,
  ⟨168, [PR_poll, PR_nfsservctl, PR_setresgid, PR_getresgid, PR_prctl, PR_rt_sigreturn,
    PR_rt_sigaction, PR_rt_sigprocmask, PR_rt_sigpending, PR_rt_sigtimedwait, PR_rt_sigqueueinfo,
    PR_rt_sigsuspend, PR_pread64, PR_pwrite64, PR_chown, PR_getcwd, PR_capget, PR_capset,
    PR_sigaltstack, PR_sendfile]⟩,
  ⟨190, [PR_vfork, PR_ugetrlimit, PR_mmap2, PR_truncate64, PR_ftruncate64, PR_stat64, PR_lstat64,
    PR_fstat64, PR_lchown32, PR_getuid32, PR_getgid32, PR_geteuid32, PR_getegid32, PR_setreuid32,
    PR_setregid32, PR_getgroups32, PR_setgroups32, PR_fchown32, PR_setresuid32, PR_getresuid32,
    PR_setresgid32, PR_getresgid32, PR_chown32, PR_setuid32, PR_setgid32, PR_setfsuid32,
    PR_setfsgid32, PR_getdents64, PR_pivot_root, PR_mincore, PR_madvise, PR_fcntl64, PR_void]⟩,
  ⟨224, [PR_gettid, PR_readahead, PR_setxattr, PR_lsetxattr, PR_fsetxattr, PR_getxattr,
    PR_lgetxattr, PR_fgetxattr, PR_listxattr, PR_llistxattr, PR_flistxattr, PR_removexattr,
    PR_lremovexattr, PR_fremovexattr, PR_tkill, PR_sendfile64, PR_futex, PR_sched_setaffinity,
    PR_sched_getaffinity, PR_io_setup, PR_io_destroy, PR_io_getevents, PR_io_submit, PR_io_cancel,
    PR_exit_group, PR_lookup_dcookie, PR_epoll_create, PR_epoll_ctl, PR_epoll_wait,
    PR_remap_file_pages]⟩,
  ⟨256, [PR_set_tid_address, PR_timer_create, PR_timer_settime, PR_timer_gettime,
    PR_timer_getoverrun, PR_timer_delete, PR_clock_settime, PR_clock_gettime, PR_clock_getres,
    PR_clock_nanosleep, PR_statfs64, PR_fstatfs64, PR_tgkill, PR_utimes, PR_arm_fadvise64_64,
    PR_pciconfig_iobase, PR_pciconfig_read, PR_pciconfig_write, PR_mq_open, PR_mq_unlink,
    PR_mq_timedsend, PR_mq_timedreceive, PR_mq_notify, PR_mq_getsetattr, PR_waitid, PR_socket,
    PR_bind, PR_connect, PR_listen, PR_accept, PR_getsockname, PR_getpeername, PR_socketpair,
    PR_send, PR_sendto, PR_recv, PR_recvfrom, PR_shutdown, PR_setsockopt, PR_getsockopt,
    PR_sendmsg, PR_recvmsg, PR_semop, PR_semget, PR_semctl, PR_msgsnd, PR_msgrcv, PR_msgget,
    PR_msgctl, PR_shmat, PR_shmdt, PR_shmget, PR_shmctl, PR_add_key, PR_request_key, PR_keyctl,
    PR_semtimedop, PR_vserver, PR_ioprio_set, PR_ioprio_get, PR_inotify_init,
    PR_inotify_add_watch, PR_inotify_rm_watch, PR_mbind, PR_get_mempolicy, PR_set_mempolicy,
    PR_openat, PR_mkdirat, PR_mknodat, PR_fchownat, PR_futimesat, PR_fstatat64, PR_unlinkat,
    PR_renameat, PR_linkat, PR_symlinkat, PR_readlinkat, PR_fchmodat, PR_faccessat, PR_pselect6,
    PR_ppoll, PR_unshare, PR_set_robust_list, PR_get_robust_list, PR_splice,
    PR_arm_sync_file_range, PR_tee, PR_vmsplice, PR_move_pages, PR_getcpu, PR_epoll_pwait,
    PR_kexec_load, PR_utimensat, PR_signalfd, PR_timerfd_create, PR_eventfd, PR_fallocate,
    PR_timerfd_settime, PR_timerfd_gettime, PR_signalfd4, PR_eventfd2, PR_epoll_create1, PR_dup3,
    PR_pipe2, PR_inotify_init1, PR_preadv, PR_pwritev, PR_rt_tgsigqueueinfo, PR_perf_event_open,
    PR_recvmmsg, PR_accept4, PR_fanotify_init, PR_fanotify_mark, PR_prlimit64,
    PR_name_to_handle_at, PR_open_by_handle_at, PR_clock_adjtime, PR_syncfs, PR_sendmmsg,
    PR_setns, PR_process_vm_readv, PR_process_vm_writev, PR_kcmp, PR_finit_module,
    PR_sched_setattr, PR_sched_getattr, PR_renameat2, PR_seccomp, PR_getrandom, PR_memfd_create,
    PR_bpf, PR_execveat, PR_userfaultfd, PR_membarrier, PR_mlock2, PR_copy_file_range, PR_preadv2,
    PR_pwritev2, PR_pkey_mprotect, PR_pkey_alloc, PR_pkey_free, PR_statx]⟩,
  ⟨435, [PR_clone3]⟩,
  ⟨437, [PR_openat2]⟩,
  ⟨439, [PR_faccessat2]⟩]

def sysnumsArm64 : List Sysnum := tableOf [
  ⟨0, [PR_io_setup, PR_io_destroy, PR_io_submit, PR_io_cancel, PR_io_getevents, PR_setxattr,
    PR_lsetxattr, PR_fsetxattr, PR_getxattr, PR_lgetxattr, PR_fgetxattr, PR_listxattr,
    PR_llistxattr, PR_flistxattr, PR_removexattr, PR_lremovexattr, PR_fremovexattr, PR_getcwd,
    PR_lookup_dcookie, PR_eventfd2, PR_epoll_create1, PR_epoll_ctl, PR_epoll_pwait, PR_dup,
    PR_dup3, PR_fcntl, PR_inotify_init1, PR_inotify_add_watch, PR_inotify_rm_watch, PR_ioctl,
    PR_ioprio_set, PR_ioprio_get, PR_flock, PR_mknodat, PR_mkdirat, PR_unlinkat, PR_symlinkat,
    PR_linkat, PR_renameat, PR_umount2, PR_mount, PR_pivot_root, PR_nfsservctl, PR_statfs,
    PR_fstatfs, PR_truncate, PR_ftruncate, PR_fallocate, PR_faccessat, PR_chdir, PR_fchdir,
    PR_chroot, PR_fchmod, PR_fchmodat, PR_fchownat, PR_fchown, PR_openat, PR_close, PR_vhangup,
    PR_pipe2, PR_quotactl, PR_getdents64, PR_lseek, PR_read, PR_write, PR_readv, PR_writev,
    PR_pread64, PR_pwrite64, PR_preadv, PR_pwritev, PR_sendfile, PR_pselect6, PR_ppoll,
    PR_signalfd4, PR_vmsplice, PR_splice, PR_tee, PR_readlinkat, PR_fstatat64, PR_fstat, PR_sync,
    PR_fsync, PR_fdatasync, PR_sync_file_range, PR_timerfd_create, PR_timerfd_settime,
    PR_timerfd_gettime, PR_utimensat, PR_acct, PR_capget, PR_capset, PR_personality, PR_exit,
    PR_exit_group, PR_waitid, PR_set_tid_address, PR_unshare, PR_futex, PR_set_robust_list,
    PR_get_robust_list, PR_nanosleep, PR_getitimer, PR_setitimer, PR_kexec_load, PR_init_module,
    PR_delete_module, PR_timer_create, PR_timer_gettime, PR_timer_getoverrun, PR_timer_settime,
    PR_timer_delete, PR_clock_settime, PR_clock_gettime, PR_clock_getres, PR_clock_nanosleep,
    PR_syslog, PR_ptrace, PR_sched_setparam, PR_sched_setscheduler, PR_sched_getscheduler,
    PR_sched_getparam, PR_sched_setaffinity, PR_sched_getaffinity, PR_sched_yield,
    PR_sched_get_priority_max, PR_sched_get_priority_min, PR_sched_rr_get_interval,
    PR_restart_syscall, PR_kill, PR_tkill, PR_tgkill, PR_sigaltstack, PR_rt_sigsuspend,
    PR_rt_sigaction, PR_rt_sigprocmask, PR_rt_sigpending, PR_rt_sigtimedwait, PR_rt_sigqueueinfo,
    PR_rt_sigreturn, PR_setpriority, PR_getpriority, PR_reboot, PR_setregid, PR_setgid,
    PR_setreuid, PR_setuid, PR_setresuid, PR_getresuid, PR_setresgid, PR_getresgid, PR_setfsuid,
    PR_setfsgid, PR_times, PR_setpgid, PR_getpgid, PR_getsid, PR_setsid, PR_getgroups,
    PR_setgroups, PR_uname, PR_sethostname, PR_setdomainname, PR_getrlimit, PR_setrlimit,
    PR_getrusage, PR_umask, PR_prctl, PR_getcpu, PR_gettimeofday, PR_settimeofday, PR_adjtimex,
    PR_getpid, PR_getppid, PR_getuid, PR_geteuid, PR_getgid, PR_getegid, PR_gettid, PR_sysinfo,
    PR_mq_open, PR_mq_unlink, PR_mq_timedsend, PR_mq_timedreceive, PR_mq_notify, PR_mq_getsetattr,
    PR_msgget, PR_msgctl, PR_msgrcv, PR_msgsnd, PR_semget, PR_semctl, PR_semtimedop, PR_semop,
    PR_shmget, PR_shmctl, PR_shmat, PR_shmdt, PR_socket, PR_socketpair, PR_bind, PR_listen,
    PR_accept, PR_connect, PR_getsockname, PR_getpeername, PR_sendto, PR_recvfrom, PR_setsockopt,
    PR_getsockopt, PR_shutdown, PR_sendmsg, PR_recvmsg, PR_readahead, PR_brk, PR_munmap,
    PR_mremap, PR_add_key, PR_request_key, PR_keyctl, PR_clone, PR_execve, PR_mmap, PR_fadvise64,
    PR_swapon, PR_swapoff, PR_mprotect, PR_msync, PR_mlock, PR_munlock, PR_mlockall,
    PR_munlockall, PR_mincore, PR_madvise, PR_remap_file_pages, PR_mbind, PR_get_mempolicy,
    PR_set_mempolicy, PR_migrate_pages, PR_move_pages, PR_rt_tgsigqueueinfo, PR_perf_event_open,
    PR_accept4, PR_recvmmsg, PR_arch_specific_syscall]⟩,
  ⟨260, [PR_wait4, PR_prlimit64, PR_fanotify_init, PR_fanotify_mark, PR_name_to_handle_at,
    PR_open_by_handle_at, PR_clock_adjtime, PR_syncfs, PR_setns, PR_sendmmsg, PR_process_vm_readv,
    PR_process_vm_writev, PR_kcmp, PR_finit_module, PR_sched_setattr, PR_sched_getattr,
    PR_renameat2, PR_seccomp, PR_getrandom, PR_memfd_create, PR_bpf, PR_execveat, PR_userfaultfd,
    PR_membarrier, PR_mlock2, PR_copy_file_range, PR_preadv2, PR_pwritev2, PR_pkey_mprotect,
    PR_pkey_alloc, PR_pkey_free, PR_statx]⟩,
  ⟨435, [PR_clone3]⟩,
  ⟨437, [PR_openat2]⟩,
  ⟨439, [PR_faccessat2]⟩]

def sysnumsSh4 : List Sysnum := tableOf [
  ⟨0, [PR_restart_syscall, PR_exit, PR_fork, PR_read, PR_write, PR_open, PR_close, PR_waitpid,
    PR_creat, PR_link, PR_unlink, PR_execve, PR_chdir, PR_time, PR_mknod, PR_chmod, PR_lchown]⟩,
  ⟨18, [PR_oldstat, PR_lseek, PR_getpid, PR_mount, PR_umount, PR_setuid, PR_getuid, PR_stime,
    PR_ptrace, PR_alarm, PR_oldfstat, PR_pause, PR_utime]⟩,
  ⟨33, [PR_access, PR_nice]⟩,
  ⟨36, [PR_sync, PR_kill, PR_rename, PR_mkdir, PR_rmdir, PR_dup, PR_pipe, PR_times]⟩,
  ⟨45, [PR_brk, PR_setgid, PR_getgid, PR_signal, PR_geteuid, PR_getegid, PR_acct, PR_umount2]⟩,
  ⟨54, [PR_ioctl, PR_fcntl]⟩,
  ⟨57, [PR_setpgid]⟩,
  ⟨60, [PR_umask, PR_chroot, PR_ustat, PR_dup2, PR_getppid, PR_getpgrp, PR_setsid, PR_sigaction,
    PR_sgetmask, PR_ssetmask, PR_setreuid, PR_setregid, PR_sigsuspend, PR_sigpending,
    PR_sethostname, PR_setrlimit, PR_getrlimit, PR_getrusage, PR_gettimeofday, PR_settimeofday,
    PR_getgroups, PR_setgroups]⟩,
  ⟨83, [PR_symlink, PR_oldlstat, PR_readlink, PR_uselib, PR_swapon, PR_reboot, PR_readdir,
    PR_mmap, PR_munmap, PR_truncate, PR_ftruncate, PR_fchmod, PR_fchown, PR_getpriority,
    PR_setpriority]⟩,
  ⟨99, [PR_statfs, PR_fstatfs]⟩,
  ⟨102, [PR_socketcall, PR_syslog, PR_setitimer, PR_getitimer, PR_stat, PR_lstat, PR_fstat,
    PR_olduname]⟩,
  ⟨111, [PR_vhangup]⟩,
  ⟨114, [PR_wait4, PR_swapoff, PR_sysinfo, PR_ipc, PR_fsync, PR_sigreturn, PR_clone,
    PR_setdomainname, PR_uname, PR_cacheflush, PR_adjtimex, PR_mprotect, PR_sigprocmask]⟩,
  ⟨128, [PR_init_module, PR_delete_module]⟩,
  ⟨131, [PR_quotactl, PR_getpgid, PR_fchdir, PR_bdflush, PR_sysfs, PR_personality]⟩,
  ⟨138, [PR_setfsuid, PR_setfsgid, PR__llseek, PR_getdents, PR__newselect, PR_flock, PR_msync,
    PR_readv, PR_writev, PR_getsid, PR_fdatasync, PR__sysctl, PR_mlock, PR_munlock, PR_mlockall,
    PR_munlockall, PR_sched_setparam, PR_sched_getparam, PR_sched_setscheduler,
    PR_sched_getscheduler, PR_sched_yield, PR_sched_get_priority_max, PR_sched_get_priority_min,
    PR_sched_rr_get_interval, PR_nanosleep, PR_mremap, PR_setresuid, PR_getresuid]⟩,
  ⟨168, [PR_poll, PR_nfsservctl, PR_setresgid, PR_getresgid, PR_prctl, PR_rt_sigreturn,
    PR_rt_sigaction, PR_rt_sigprocmask, PR_rt_sigpending, PR_rt_sigtimedwait, PR_rt_sigqueueinfo,
    PR_rt_sigsuspend, PR_pread64, PR_pwrite64, PR_chown, PR_getcwd, PR_capget, PR_capset,
    PR_sigaltstack, PR_sendfile]⟩,
  ⟨190, [PR_vfork, PR_ugetrlimit, PR_mmap2, PR_truncate64, PR_ftruncate64, PR_stat64, PR_lstat64,
    PR_fstat64, PR_lchown32, PR_getuid32, PR_getgid32, PR_geteuid32, PR_getegid32, PR_setreuid32,
    PR_setregid32, PR_getgroups32, PR_setgroups32, PR_fchown32, PR_setresuid32, PR_getresuid32,
    PR_setresgid32, PR_getresgid32, PR_chown32, PR_setuid32, PR_setgid32, PR_setfsuid32,
    PR_setfsgid32, PR_pivot_root, PR_mincore, PR_madvise, PR_getdents64, PR_fcntl64]⟩,
  ⟨224, [PR_gettid, PR_readahead, PR_setxattr, PR_lsetxattr, PR_fsetxattr, PR_getxattr,
    PR_lgetxattr, PR_fgetxattr, PR_listxattr, PR_llistxattr, PR_flistxattr, PR_removexattr,
    PR_lremovexattr, PR_fremovexattr, PR_tkill, PR_sendfile64, PR_futex, PR_sched_setaffinity,
    PR_sched_getaffinity]⟩,
  ⟨245, [PR_io_setup, PR_io_destroy, PR_io_getevents, PR_io_submit, PR_io_cancel, PR_fadvise64]⟩,
  ⟨252, [PR_exit_group, PR_lookup_dcookie, PR_epoll_create, PR_epoll_ctl, PR_epoll_wait,
    PR_remap_file_pages, PR_set_tid_address, PR_timer_create, PR_timer_settime, PR_timer_gettime,
    PR_timer_getoverrun, PR_timer_delete, PR_clock_settime, PR_clock_gettime, PR_clock_getres,
    PR_clock_nanosleep, PR_statfs64, PR_fstatfs64, PR_tgkill, PR_utimes, PR_fadvise64_64]⟩,
  ⟨274, [PR_mbind, PR_get_mempolicy, PR_set_mempolicy, PR_mq_open, PR_mq_unlink, PR_mq_timedsend,
    PR_mq_timedreceive, PR_mq_notify, PR_mq_getsetattr, PR_kexec_load, PR_waitid, PR_add_key,
    PR_request_key, PR_keyctl, PR_ioprio_set, PR_ioprio_get, PR_inotify_init,
    PR_inotify_add_watch, PR_inotify_rm_watch]⟩,
  ⟨294, [PR_migrate_pages, PR_openat, PR_mkdirat, PR_mknodat, PR_fchownat, PR_futimesat,
    PR_fstatat64, PR_unlinkat, PR_renameat, PR_linkat, PR_symlinkat, PR_readlinkat, PR_fchmodat,
    PR_faccessat, PR_pselect6, PR_ppoll, PR_unshare, PR_set_robust_list, PR_get_robust_list,
    PR_splice, PR_sync_file_range, PR_tee, PR_vmsplice, PR_move_pages, PR_getcpu, PR_epoll_pwait,
    PR_utimensat, PR_signalfd, PR_timerfd_create, PR_eventfd, PR_fallocate, PR_timerfd_settime,
    PR_timerfd_gettime, PR_signalfd4, PR_eventfd2, PR_epoll_create1, PR_dup3, PR_pipe2,
    PR_inotify_init1, PR_preadv, PR_pwritev, PR_rt_tgsigqueueinfo, PR_perf_event_open,
    PR_fanotify_init, PR_fanotify_mark, PR_prlimit64, PR_socket, PR_bind, PR_connect, PR_listen,
    PR_accept, PR_getsockname, PR_getpeername, PR_socketpair, PR_send, PR_sendto, PR_recv,
    PR_recvfrom, PR_shutdown, PR_setsockopt, PR_getsockopt, PR_sendmsg, PR_recvmsg, PR_recvmmsg,
    PR_accept4, PR_name_to_handle_at, PR_open_by_handle_at, PR_clock_adjtime, PR_syncfs,
    PR_sendmmsg, PR_setns, PR_process_vm_readv, PR_process_vm_writev]⟩,
  ⟨435, [PR_clone3]⟩,
  ⟨437, [PR_openat2]⟩,
  ⟨439, [PR_faccessat2]⟩]

/-! ## ABIs -/

inductive Abi where
  | ABI_DEFAULT
  | ABI_2
  | ABI_3
  deriving DecidableEq

/-- The architectures of `arch.h`. -/
inductive Arch where
  | ARCH_X86_64
  | ARCH_ARM_EABI
  | ARCH_ARM64
  | ARCH_X86
  | ARCH_SH4
  deriving DecidableEq

structure Sysnums where
  table : List Sysnum
  offset : Nat

/-- `get_sysnums`; an ABI the architecture doesn't have fails the assertion. -/
def getSysnums : Arch → Abi → Option Sysnums
  | .ARCH_X86_64, .ABI_DEFAULT => some ⟨sysnumsX86_64, 0⟩
  | .ARCH_X86_64, .ABI_2 => some ⟨sysnumsI386, 0⟩
  | .ARCH_X86_64, .ABI_3 => some ⟨sysnumsX32, 0x40000000⟩
  | .ARCH_ARM_EABI, .ABI_DEFAULT => some ⟨sysnumsArm, 0⟩
  | .ARCH_ARM64, .ABI_DEFAULT => some ⟨sysnumsArm64, 0⟩
  | .ARCH_ARM64, .ABI_2 => some ⟨sysnumsArm, 0⟩
  | .ARCH_X86, .ABI_DEFAULT => some ⟨sysnumsI386, 0⟩
  | .ARCH_SH4, .ABI_DEFAULT => some ⟨sysnumsSh4, 0⟩
  | _, _ => none

/-- `SYSCALL_AVOIDER`, a `word_t`. -/
def Arch.syscallAvoider : Arch → Nat
  | .ARCH_X86_64 => 2 ^ 64 - 2
  | .ARCH_ARM_EABI => 222
  | .ARCH_ARM64 => 2 ^ 64 - 1
  | .ARCH_X86 => 2 ^ 32 - 2
  | .ARCH_SH4 => 2 ^ 32 - 2

/-- `detranslate_sysnum`: the number of the ABI, from the first item of its table. -/
def detranslateSysnum (arch : Arch) (abi : Abi) (sysnum : Sysnum) : Option Nat :=
  if sysnum = PR_void then some arch.syscallAvoider
  else
    (getSysnums arch abi).map fun sysnums =>
      match sysnums.table.findIdx? (· = sysnum) with
      | some i => i + sysnums.offset
      | none => arch.syscallAvoider

def Sysnums.sysnum? (sysnums : Sysnums) (number : Nat) : Option Sysnum :=
  if sysnums.offset ≤ number then sysnums.table[number - sysnums.offset]? else none

/-! ## What the tables hold -/

structure Sysnums.Sound (sysnums : Sysnums) (avoider : Nat) : Prop where
  injective : (sysnums.table.filter (· ≠ PR_void)).Nodup
  /-- The numbers fit in the register of a 32-bit host, and x32 begins above the others. -/
  length : sysnums.table.length ≤ 0x3fffffff
  offset : sysnums.offset ≤ 0x40000000
  /-- No system call has the number that stands for none. -/
  avoider : ∀ sysnum, sysnums.sysnum? avoider = some sysnum → sysnum = PR_void

variable {sysnums : Sysnums} {table : List Sysnum} {sysnum : Sysnum}

theorem Sysnums.sysnum?_eq_none {number : Nat}
    (h : sysnums.offset + sysnums.table.length ≤ number) : sysnums.sysnum? number = none := by
  have hle : sysnums.table.length ≤ number - sysnums.offset := by omega
  rw [Sysnums.sysnum?, if_pos (by omega), List.getElem?_eq_none hle]

theorem Sysnums.Sound.of_length {offset avoider : Nat}
    (hinj : (table.filter (· ≠ PR_void)).Nodup) (hlen : table.length ≤ 0x3fffffff)
    (hoff : offset ≤ 0x40000000) (havoid : 0x7fffffff ≤ avoider) :
    (⟨table, offset⟩ : Sysnums).Sound avoider := by
  refine ⟨hinj, hlen, hoff, ?_⟩
  intro sysnum h
  rw [Sysnums.sysnum?_eq_none (by simp only; omega)] at h
  cases h

/-- The numbers of the list don't repeat, and none is a bit of `seen`. -/
def noRepeat : List Nat → Nat → Bool
  | [], _ => true
  | i :: is, seen => !seen.testBit i && noRepeat is (seen ||| 1 <<< i)

theorem noRepeat_nodup {is : List Nat} {seen : Nat} (h : noRepeat is seen = true) :
    is.Nodup ∧ ∀ i ∈ is, seen.testBit i = false := by
  induction is generalizing seen with
  | nil => exact ⟨List.nodup_nil, by simp⟩
  | cons i is ih =>
      simp only [noRepeat, Bool.and_eq_true, Bool.not_eq_true'] at h
      obtain ⟨hnodup, hfresh⟩ := ih h.2
      have hbit (k : Nat) (hk : k ∈ is) : seen.testBit k = false ∧ i ≠ k := by
        have := hfresh k hk
        simp only [Nat.testBit_or, Nat.testBit_shiftLeft, Bool.or_eq_false_iff,
          Bool.and_eq_false_imp] at this
        grind
      refine ⟨List.nodup_cons.mpr ⟨fun hi => (hbit i hi).2 rfl, hnodup⟩, ?_⟩
      intro k hk
      cases List.mem_cons.mp hk with
      | inl heq => exact heq ▸ h.1
      | inr hk => exact (hbit k hk).1

/-- The check of a table, on the indices of its items in `Sysnum`. -/
def distinct (table : List Sysnum) : Bool :=
  noRepeat ((table.filter (· ≠ PR_void)).map Sysnum.ctorIdx) 0

theorem distinct_nodup (h : distinct table = true) :
    (table.filter (· ≠ PR_void)).Nodup :=
  .of_map _ (noRepeat_nodup h).1

theorem getSysnums_sound {arch : Arch} {abi : Abi}
    (h : getSysnums arch abi = some sysnums) : sysnums.Sound arch.syscallAvoider := by
  cases arch <;> cases abi <;> cases h
  case ARCH_ARM_EABI.ABI_DEFAULT =>
    refine ⟨(distinct_nodup (by decide +kernel)), by decide +kernel, by decide, ?_⟩
    intro sysnum h
    have hvoid : (⟨sysnumsArm, 0⟩ : Sysnums).sysnum? 222 = some PR_void := by decide +kernel
    exact Option.some.inj (h.symm.trans hvoid)
  case ARCH_X86_64.ABI_DEFAULT =>
    exact .of_length (distinct_nodup (by decide +kernel)) (by decide +kernel) (by decide) (by decide)
  case ARCH_X86_64.ABI_2 | ARCH_X86.ABI_DEFAULT =>
    exact .of_length (distinct_nodup (by decide +kernel)) (by decide +kernel) (by decide) (by decide)
  case ARCH_X86_64.ABI_3 =>
    exact .of_length (distinct_nodup (by decide +kernel)) (by decide +kernel) (by decide) (by decide)
  case ARCH_ARM64.ABI_DEFAULT =>
    exact .of_length (distinct_nodup (by decide +kernel)) (by decide +kernel) (by decide) (by decide)
  case ARCH_ARM64.ABI_2 =>
    exact .of_length (distinct_nodup (by decide +kernel)) (by decide +kernel) (by decide) (by decide)
  case ARCH_SH4.ABI_DEFAULT =>
    exact .of_length (distinct_nodup (by decide +kernel)) (by decide +kernel) (by decide) (by decide)

theorem getElem?_index_unique
    (hinj : (table.filter (· ≠ PR_void)).Nodup) (hs : sysnum ≠ PR_void) {i j : Nat}
    (hi : table[i]? = some sysnum) (hj : table[j]? = some sysnum) : i = j := by
  obtain ⟨hi, hival⟩ := List.getElem?_eq_some_iff.mp hi
  obtain ⟨hj, hjval⟩ := List.getElem?_eq_some_iff.mp hj
  have hpair := List.pairwise_iff_getElem.mp (List.pairwise_filter.mp hinj)
  rcases Nat.lt_trichotomy i j with hlt | heq | hlt
  · exact absurd (hival.trans hjval.symm)
      (hpair i j hi hj hlt (by simp [hival, hs]) (by simp [hjval, hs]))
  · exact heq
  · exact absurd (hjval.trans hival.symm)
      (hpair j i hj hi hlt (by simp [hjval, hs]) (by simp [hival, hs]))

theorem findIdx?_eq_some_iff_getElem?
    (hinj : (table.filter (· ≠ PR_void)).Nodup) (hs : sysnum ≠ PR_void) (i : Nat) :
    table.findIdx? (· = sysnum) = some i ↔ table[i]? = some sysnum := by
  have found (j : Nat) (h : table.findIdx? (· = sysnum) = some j) : table[j]? = some sysnum := by
    obtain ⟨hj, heq, -⟩ := List.findIdx?_eq_some_iff_getElem.mp h
    exact List.getElem?_eq_some_iff.mpr ⟨hj, of_decide_eq_true heq⟩
  constructor
  · exact found i
  · intro h
    cases hfind : table.findIdx? (· = sysnum) with
    | some j => rw [getElem?_index_unique hinj hs h (found j hfind)]
    | none =>
        have := List.findIdx?_eq_none_iff.mp hfind sysnum (List.mem_of_getElem? h)
        simp at this

/-- **What `detranslate_sysnum` answers** for a system call: the one number it has in the table, or
the number that stands for none. -/
theorem detranslateSysnum_spec {arch : Arch} {abi : Abi}
    (h : getSysnums arch abi = some sysnums) (hs : sysnum ≠ PR_void) :
    ∃ number, detranslateSysnum arch abi sysnum = some number ∧
      ∀ n, (number = n ∧ n ≠ arch.syscallAvoider) ↔ sysnums.sysnum? n = some sysnum := by
  have hsound := getSysnums_sound h
  have hindex := findIdx?_eq_some_iff_getElem? hsound.injective hs
  have havoid (n : Nat) (hn : sysnums.sysnum? n = some sysnum) : n ≠ arch.syscallAvoider := by
    intro heq
    subst heq
    exact hs (hsound.avoider sysnum hn)
  have hsysnum (n : Nat) : sysnums.sysnum? n = some sysnum ↔
      sysnums.offset ≤ n ∧ sysnums.table.findIdx? (· = sysnum) = some (n - sysnums.offset) := by
    rw [hindex, Sysnums.sysnum?]
    by_cases hle : sysnums.offset ≤ n
    · simp [hle]
    · simp [hle]
  cases hfind : sysnums.table.findIdx? (· = sysnum) with
  | some i =>
      refine ⟨i + sysnums.offset, by simp [detranslateSysnum, hs, h, hfind], ?_⟩
      intro n
      have hn := hsysnum n
      rw [hfind, Option.some.injEq] at hn
      constructor
      · intro heq
        exact hn.mpr (by omega)
      · intro hsome
        exact ⟨by have := hn.mp hsome; omega, havoid n hsome⟩
  | none =>
      refine ⟨arch.syscallAvoider, by simp [detranslateSysnum, hs, h, hfind], ?_⟩
      intro n
      have hn := hsysnum n
      simp only [hfind, reduceCtorEq, and_false, iff_false] at hn
      constructor
      · intro heq
        exact absurd heq.1.symm heq.2
      · intro hsome
        exact absurd hsome hn

theorem sysnum?_lt {arch : Arch} {abi : Abi} {number : Nat}
    (h : getSysnums arch abi = some sysnums) (hn : sysnums.sysnum? number = some sysnum) :
    number < 2 ^ 31 := by
  have hsound := getSysnums_sound h
  by_contra hge
  rw [Sysnums.sysnum?_eq_none (by have := hsound.length; have := hsound.offset; omega)] at hn
  cases hn

theorem Sysnum.ctorIdx_lt (sysnum : Sysnum) : sysnum.ctorIdx < nbSysnum := by
  cases sysnum <;> decide

theorem length_le_nbSysnum {sysnums : List Sysnum} (h : sysnums.Nodup) :
    sysnums.length ≤ nbSysnum := by
  have hinj : Function.Injective Sysnum.ctorIdx :=
    Function.LeftInverse.injective Sysnum.ofNat_ctorIdx
  have hsub : sysnums.map Sysnum.ctorIdx ⊆ List.range nbSysnum := by
    intro i hi
    obtain ⟨sysnum, -, rfl⟩ := List.mem_map.mp hi
    exact List.mem_range.mpr sysnum.ctorIdx_lt
  simpa using ((h.map hinj).subperm hsub).length_le

end Improot.Syscall
