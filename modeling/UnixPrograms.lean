import UnixPrograms.Rwlock.Wakeups
import UnixPrograms.Mymq.Notify
import UnixPrograms.Mymq.Wakeups
import UnixPrograms.Db.Aborts
import UnixPrograms.Db.Concurrent
import UnixPrograms.Mysem.Wakeups
import UnixPrograms.Readline
import UnixPrograms.Opend
import UnixPrograms.LockSem
import UnixPrograms.Semaph.Runs
import UnixPrograms.Printd.Queue
import UnixPrograms.Printd.Spool
import UnixPrograms.Printd.Verdict
import UnixPrograms.Dtree.Runs
import UnixPrograms.Gettoken
import UnixPrograms.Packets
import UnixPrograms.Fmemopen
import UnixPrograms.StrCli
import UnixPrograms.DgEcho
import UnixPrograms.BufferConddone.Wakeups
import UnixPrograms.ListLib
import UnixPrograms.DgSendRecv
import UnixPrograms.Mutex2.References
import UnixPrograms.Mymq.Creation
import UnixPrograms.Db.Scan
import UnixPrograms.Db.Reuse
import UnixPrograms.RecvFd
import UnixPrograms.Rlogging
import UnixPrograms.Prodcons
import UnixPrograms.Setenv
import UnixPrograms.SmiShm.Mailboxes
import UnixPrograms.BufArgs
import UnixPrograms.Printd.Datafile
import UnixPrograms.Popen
import UnixPrograms.Semaph.Creation
import UnixPrograms.AtomicLogger
import UnixPrograms.Bufio
import UnixPrograms.Uem
import UnixPrograms.GaServ
import UnixPrograms.RequestReply
import UnixPrograms.Web03
import UnixPrograms.Web
import UnixPrograms.Pxshm
import UnixPrograms.Lib.OnesComplement
import UnixPrograms.MysemSv
import UnixPrograms.NetlinkUser
import UnixPrograms.UdpCksum
import UnixPrograms.Barrier
import UnixPrograms.Cwd
import UnixPrograms.Icmpd
import UnixPrograms.ReadLineBuf
import UnixPrograms.SmiShm.Cache
import UnixPrograms.TcpServPoll
import UnixPrograms.Bubblesort
